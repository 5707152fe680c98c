import WatchedBack.Verification.Api.Catalog

/-! # What the definitions make of the data tables

A definition that is not skipped adds the columns of its properties of a known type, and those of
every data table when it creates its own. No column ever goes. -/

namespace WatchedBack

open Fallible Catalog

/-- A property that has a column type. -/
def Typed (property : Json) : Prop := ∃ type, columnType property = .ok (some type)

/-- The id column of a table that is created from the definition. -/
def idColumn (definition : Json) : String :=
  if definition.isMember "x-isService" = .ok true then "serv_id" else "host_id"

/-- The definition is made into a table. -/
def Handled (definition : String × Json) : Prop := skipped definition = .ok false

/-- A definition gives its table the column: by a property, or as one of those that every new
table has. -/
def Gives (col : Collation) (created : Bool) (definition : Json) (column : String) : Prop :=
  (∃ property ∈ definition.entriesAt "properties", Typed property.2 ∧
    col.same property.1 column = true) ∨
  created = true ∧ ∃ name ∈ [idColumn definition, "res_id", "timestamp"],
    col.same name column = true

section tables

variable {col : Collation} {c c' : Catalog} {table other column : String} {new : DataColumn}
  {property : String × Json} {properties : List (String × Json)} {definition : String × Json}
  {definitions : List (String × Json)}

/-! ### Columns -/

theorem tableHasColumn_iff : c.tableHasColumn col table column = true ↔
    ∃ t ∈ c.tables, t.name = table ∧ ∃ k ∈ t.columns, col.same k.name column = true := by
  simp [tableHasColumn, List.any_eq_true]

theorem haveTable_iff : c.haveTable table = true ↔ ∃ t ∈ c.tables, t.name = table := by
  simp [haveTable, List.any_eq_true]

theorem tableHasColumn_of_same {name : String} (h : c.tableHasColumn col table name = true)
    (hsame : col.same name column = true) : c.tableHasColumn col table column = true := by
  obtain ⟨t, ht, hname, k, hk, hcolumn⟩ := tableHasColumn_iff.mp h
  exact tableHasColumn_iff.mpr ⟨t, ht, hname, k, hk, col.trans hcolumn hsame⟩

theorem addColumn_haveTable : (c.addColumn table new).haveTable other = c.haveTable other := by
  simp only [haveTable, addColumn, List.any_map]
  congr 1
  funext t
  simp only [Function.comp_apply]
  split <;> rfl

theorem addColumn_hasColumn (htable : c.haveTable table = true) :
    (c.addColumn table new).tableHasColumn col other column = true ↔
      c.tableHasColumn col other column = true ∨
        other = table ∧ col.same new.name column = true := by
  simp only [tableHasColumn_iff, addColumn, List.mem_map]
  constructor
  · rintro ⟨_, ⟨t, ht, rfl⟩, hname, k, hk, hsame⟩
    by_cases heq : t.name = table
    · simp only [heq, if_true] at hname hk
      rcases List.mem_append.mp hk with hk | hk
      · exact Or.inl ⟨t, ht, heq.trans hname, k, hk, hsame⟩
      · rw [List.mem_singleton.mp hk] at hsame
        exact Or.inr ⟨hname.symm, hsame⟩
    · simp only [heq, if_false] at hname hk
      exact Or.inl ⟨t, ht, hname, k, hk, hsame⟩
  · rintro (⟨t, ht, rfl, k, hk, hsame⟩ | ⟨rfl, hsame⟩)
    · refine ⟨_, ⟨t, ht, rfl⟩, ?_, k, ?_, hsame⟩
      · split <;> rfl
      · split
        · exact List.mem_append_left _ hk
        · exact hk
    · obtain ⟨t, ht, hname⟩ := haveTable_iff.mp htable
      refine ⟨_, ⟨t, ht, rfl⟩, ?_, new, ?_, hsame⟩
      · rw [if_pos hname]
        exact hname
      · rw [if_pos hname]
        exact List.mem_append_right _ (List.mem_singleton_self new)

/-! ### An existing table -/

/-- What a property does to the tables. -/
structure Adds (col : Collation) (table : String) (properties : List (String × Json))
    (c c' : Catalog) : Prop where
  tables : ∀ other, c'.haveTable other = c.haveTable other
  columns : ∀ other column, c'.tableHasColumn col other column = true ↔
    c.tableHasColumn col other column = true ∨ other = table ∧
      ∃ property ∈ properties, Typed property.2 ∧ col.same property.1 column = true

theorem addMissing_adds (htable : c.haveTable table = true)
    (h : addMissing (store col) table c property = .ok c') : Adds col table [property] c c' := by
  rw [addMissing_store] at h
  split at h
  · next hknown =>
    cases h
    refine ⟨fun _ => rfl, fun other column => ⟨Or.inl, ?_⟩⟩
    rintro (hold | ⟨rfl, p, hp, -, hsame⟩)
    · exact hold
    · rw [List.mem_singleton.mp hp] at hsame
      exact tableHasColumn_of_same hknown hsame
  · obtain ⟨type, htype, h⟩ := bind_eq_ok.mp h
    cases type with
    | none =>
        cases h
        refine ⟨fun _ => rfl, fun other column => ⟨Or.inl, ?_⟩⟩
        rintro (hold | ⟨rfl, p, hp, ⟨type, hp'⟩, -⟩)
        · exact hold
        · rw [List.mem_singleton.mp hp, htype] at hp'
          cases hp'
    | some type =>
        cases h
        refine ⟨fun _ => addColumn_haveTable, fun other column => ?_⟩
        rw [addColumn_hasColumn htable]
        have htyped : Typed property.2 := ⟨type, htype⟩
        simp [htyped]

theorem addAll_adds (htable : c.haveTable table = true)
    (h : properties.foldlM (addMissing (store col) table) c = .ok c') :
    Adds col table properties c c' := by
  induction properties generalizing c with
  | nil =>
      cases h
      exact ⟨fun _ => rfl, fun other column => by simp⟩
  | cons property properties ih =>
      obtain ⟨m, hm, h⟩ := foldlM_cons_eq_ok.mp h
      have hfirst := addMissing_adds htable hm
      have hrest := ih ((hfirst.tables table).trans htable) h
      refine ⟨fun other => (hrest.tables other).trans (hfirst.tables other), fun other column => ?_⟩
      rw [hrest.columns, hfirst.columns]
      simp only [List.mem_cons, List.not_mem_nil, or_false, exists_eq_left, exists_eq_or_imp,
        and_or_left, or_assoc]

/-! ### A new table -/

/-- The loop, with what each property adds. -/
theorem propertyColumns_eq (properties : List (String × Json)) : propertyColumns properties =
    properties.foldlM (fun columns property => (columnType property.2).map fun type =>
      columns ++ type.toList.map (DataColumn.mk property.1)) [] := by
  unfold propertyColumns
  congr 1
  funext columns property
  cases columnType property.2 with
  | error fault => rfl
  | ok type => cases type <;> simp [bind, Except.bind, Except.map, pure, Except.pure]

/-- The columns after the loop, from those before it. -/
theorem mem_foldlM_columns (col : Collation) (column : String) {start columns : List DataColumn}
    (h : properties.foldlM (fun columns property => (columnType property.2).map fun type =>
      columns ++ type.toList.map (DataColumn.mk property.1)) start = .ok columns) :
    (∃ k ∈ columns, col.same k.name column = true) ↔
      (∃ k ∈ start, col.same k.name column = true) ∨
        ∃ property ∈ properties, Typed property.2 ∧ col.same property.1 column = true := by
  induction properties generalizing start with
  | nil =>
      cases h
      simp
  | cons property properties ih =>
      obtain ⟨m, hm, h⟩ := foldlM_cons_eq_ok.mp h
      obtain ⟨type, htype, rfl⟩ := map_eq_ok.mp hm
      rw [ih h]
      cases type with
      | none =>
          have hnot : ¬ Typed property.2 := by
            rintro ⟨type, htyped⟩
            rw [htype] at htyped
            cases htyped
          simp [hnot]
      | some type =>
          have htyped : Typed property.2 := ⟨type, htype⟩
          simp [htyped, List.mem_append, or_and_right, exists_or, or_assoc]

theorem mem_propertyColumns (col : Collation) (column : String) {columns : List DataColumn}
    (h : propertyColumns properties = .ok columns) :
    (∃ k ∈ columns, col.same k.name column = true) ↔
      ∃ property ∈ properties, Typed property.2 ∧ col.same property.1 column = true := by
  rw [propertyColumns_eq] at h
  have hall := mem_foldlM_columns col column h
  simpa using hall

theorem idColumn_eq {v : Json} {isService : Bool} (h : v.isMember "x-isService" = .ok isService) :
    idColumn v = if isService then "serv_id" else "host_id" := by
  rw [idColumn, h]
  cases isService <;> simp

theorem mem_newColumns {v : Json} {columns : List DataColumn} (h : newColumns v = .ok columns) :
    (∃ k ∈ columns, col.same k.name column = true) ↔ Gives col true v column := by
  obtain ⟨isService, hservice, h⟩ := bind_eq_ok.mp h
  obtain ⟨properties, hproperties, h⟩ := bind_eq_ok.mp h
  obtain ⟨typed, htyped, h⟩ := bind_eq_ok.mp h
  cases h
  have hmem := mem_propertyColumns col column htyped
  rw [Gives, idColumn_eq hservice, Json.entriesAt, hproperties]
  simp only [List.mem_append, List.mem_cons, List.not_mem_nil, or_false, or_and_right, exists_or,
    exists_eq_left, hmem, List.mem_filter, decide_eq_true_eq, true_and]
  constructor
  · rintro (h | ⟨p, ⟨hp, -⟩, htype, hsame⟩)
    · exact Or.inr h
    · exact Or.inl ⟨p, hp, htype, hsame⟩
  · rintro (⟨p, hp, htype, hsame⟩ | h)
    · by_cases hts : p.1 = "timestamp"
      · exact Or.inl (Or.inr (Or.inr (hts ▸ hsame)))
      · exact Or.inr ⟨p, ⟨hp, hts⟩, htype, hsame⟩
    · exact Or.inl h

/-! ### Definitions -/

/-- What a definition does to the tables. -/
structure Makes (col : Collation) (definitions : List (String × Json)) (c c' : Catalog) : Prop where
  tables : ∀ table, (∀ d ∈ definitions, table ≠ "d$" ++ d.1) → c'.haveTable table = c.haveTable table
  columns : ∀ table column, c'.tableHasColumn col table column = true ↔
    c.tableHasColumn col table column = true ∨ ∃ d ∈ definitions, Handled d ∧
      table = "d$" ++ d.1 ∧ Gives col (!c.haveTable table) d.2 column

theorem tableHasColumn_append {columns : List DataColumn} (name : String) :
    ({ c with tables := c.tables ++ [⟨name, columns⟩] } : Catalog).tableHasColumn col table column =
        true ↔
      c.tableHasColumn col table column = true ∨
        table = name ∧ ∃ k ∈ columns, col.same k.name column = true := by
  simp only [tableHasColumn_iff, List.mem_append, List.mem_singleton, or_and_right, exists_or,
    exists_eq_left]
  rw [eq_comm (a := name)]

theorem haveTable_append {columns : List DataColumn} {name : String} (hne : table ≠ name) :
    ({ c with tables := c.tables ++ [⟨name, columns⟩] } : Catalog).haveTable table =
      c.haveTable table := by
  have hfalse : decide (name = table) = false := decide_eq_false (Ne.symm hne)
  simp [haveTable, List.any_append, hfalse]

theorem createTable_makes (h : createTable (store col) c definition = .ok c') :
    Makes col [definition] c c' := by
  rw [createTable_store] at h
  obtain ⟨skip, hskip, h⟩ := bind_eq_ok.mp h
  split at h
  · next htrue =>
    cases h
    have hnot : ¬ Handled definition := by
      rw [Handled, hskip, htrue]
      simp
    exact ⟨fun _ _ => rfl, fun table column => by simp [hnot]⟩
  · next hfalse =>
    have hhandled : Handled definition := by
      rw [Handled, hskip, Bool.eq_false_of_not_eq_true hfalse]
    split at h
    · next htable =>
      obtain ⟨properties, hproperties, h⟩ := bind_eq_ok.mp h
      have hadds := addAll_adds htable h
      refine ⟨fun table _ => hadds.tables table, fun table column => ?_⟩
      rw [hadds.columns]
      simp only [List.mem_singleton, exists_eq_left, hhandled, true_and, Gives, Json.entriesAt,
        hproperties]
      apply or_congr_right
      apply and_congr_right
      intro htab
      simp [htab, htable]
    · next htable =>
      obtain ⟨columns, hcolumns, h⟩ := bind_eq_ok.mp h
      cases h
      refine ⟨fun table hne => haveTable_append (hne definition (List.mem_singleton_self _)),
        fun table column => ?_⟩
      rw [tableHasColumn_append, mem_newColumns hcolumns]
      simp only [List.mem_singleton, exists_eq_left, hhandled, true_and]
      apply or_congr_right
      apply and_congr_right
      intro htab
      simp [htab, htable]

theorem dollar_inj {s t : String} (h : "d$" ++ s = "d$" ++ t) : s = t := by
  have hchars : "d$".toList ++ s.toList = "d$".toList ++ t.toList := by
    simpa only [String.toList_append] using congrArg String.toList h
  exact String.ext (List.append_cancel_left hchars)

theorem createTables_makes (hnodup : (definitions.map Prod.fst).Nodup)
    (h : definitions.foldlM (createTable (store col)) c = .ok c') : Makes col definitions c c' := by
  induction definitions generalizing c with
  | nil =>
      cases h
      exact ⟨fun _ _ => rfl, fun table column => by simp⟩
  | cons definition definitions ih =>
      obtain ⟨hnew, hnodup⟩ := List.nodup_cons.mp hnodup
      obtain ⟨m, hm, h⟩ := foldlM_cons_eq_ok.mp h
      have hfirst := createTable_makes hm
      have hrest := ih hnodup h
      refine ⟨fun table hne => ?_, fun table column => ?_⟩
      · rw [hrest.tables table fun d hd => hne d (List.mem_cons_of_mem _ hd)]
        exact hfirst.tables table fun d hd => hne d (List.mem_singleton.mp hd ▸ List.mem_cons_self)
      · rw [hrest.columns, hfirst.columns]
        simp only [List.mem_cons, List.not_mem_nil, or_false, exists_eq_left, exists_eq_or_imp,
          or_assoc]
        apply or_congr_right
        apply or_congr_right
        apply exists_congr
        intro d
        apply and_congr_right
        intro hd
        apply and_congr_right
        intro _
        apply and_congr_right
        intro htab
        -- the table of a later definition is not that of the first
        have hne : table ≠ "d$" ++ definition.1 := by
          intro heq
          have hname : definition.1 = d.1 := dollar_inj (heq.symm.trans htab)
          exact hnew (List.mem_map.mpr ⟨d, hd, hname.symm⟩)
        rw [hfirst.tables table fun p hp => List.mem_singleton.mp hp ▸ hne]

end tables

end WatchedBack
