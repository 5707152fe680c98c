import WatchedBack.Verification.Api.Rebuild
import WatchedBack.Verification.Api.Tables

/-! # Inserted columns and the columns of the tables

`updateDefs` inserts every property of a definition, `createTables` makes columns of some. -/

namespace WatchedBack

open Fallible Reconcile Catalog

/-- A definition of the document, or one that a path asks for and the document lacks. -/
def ApiDocument.Defines (doc : ApiDocument) (name : String) (definition : Json) : Prop :=
  (name, definition) ∈ doc.value.entriesAt "definitions" ∨
    name ∉ (doc.value.entriesAt "definitions").map Prod.fst ∧ definition = .null ∧
      ∃ path ∈ doc.paths, ∃ item, readPath path = .ok (some item) ∧ item.table = name

/-- The table has the column, or its definition in the document gives it. -/
def Provided (col : Collation) (c : Catalog) (doc : ApiDocument) (table column : String) : Prop :=
  c.tableHasColumn col ("d$" ++ table) column = true ∨
    ∃ definition, doc.Defines table definition ∧ Handled (table, definition) ∧
      Gives col (!c.haveTable ("d$" ++ table)) definition column

/-- The columns of an insert by the properties of a definition. -/
def insertColumns (doc : ApiDocument) (isService : Bool) (name : String) : List String :=
  (if isService then "serv_id" else "host_id") :: "res_id" ::
    match doc.value.path ["definitions", name, "properties"] with
    | .ok properties => properties.entries.map Prod.fst
    | .error _ => []

/-- The table and the kind of the client of a path: those of the client that the agent has, or
those of a new one. -/
inductive Target (a : AgentApi) (path : String × Json) (item : PathItem)
    (service : Option String) : String → Bool → Prop where
  | kept (b : BoundClient) (hb : b ∈ a.ressources) (hurl : b.baseurl = path.1) :
      Target a path item service b.client.table b.client.isService
  | made (hnew : path.1 ∉ a.ressources.map BoundClient.baseurl) :
      Target a path item service item.table service.isSome

/-- Every column of the insert for a path of the document is provided. -/
def Provides (col : Collation) (f : Fleet) (call : UpdateCall) : Prop :=
  match call.reply with
  | .document doc => ∀ path ∈ doc.paths, ∀ item service, readPath path = .ok (some item) →
      readService path.2 = .ok service → ∀ table isService,
        Target (f.agents call.agent) path item service table isService →
          ∀ column ∈ insertColumns doc isService item.table,
            Provided col f.catalog doc table column
  | _ => True

/-- Every column that the insert of the client names is in its table. -/
def Insertable (col : Collation) (c : Catalog) (b : BoundClient) : Prop :=
  ∀ column ∈ b.client.baseInsert.columnNames,
    c.tableHasColumn col b.client.baseInsert.table column = true

def Fleet.Insertable (col : Collation) (f : Fleet) : Prop :=
  ∀ id, ∀ b ∈ (f.agents id).ressources, WatchedBack.Insertable col f.catalog b

section columns

variable {col : Collation} {db : Database} {doc : ApiDocument} {a a' : AgentApi}
  {c c' c₁ m : Catalog} {news : List RessourceClient} {table column : String} {b : BoundClient}
  {n : RessourceClient} {f f' : Fleet} {call : UpdateCall}

/-! ### The definitions of a document -/

/-- The loop over the paths leaves the data tables alone. -/
theorem describeAll_tables {api : Json} {paths : List (String × Json)}
    (h : describeAll (Catalog.store col) api paths c = .ok (news, c')) : c'.tables = c.tables := by
  induction paths generalizing c news with
  | nil =>
      cases h
      rfl
  | cons path paths ih =>
      obtain ⟨new, m, rest, hnew, hrest, -⟩ := describeAll_cons_eq_ok.mp h
      rw [ih hrest]
      have hressource (item : PathItem) :
          (lookupRessource (Catalog.store col) item c).2.tables = c.tables := by
        rw [lookupRessource_store]
        split <;> rfl
      cases describe_description hnew with
      | other hpath => rfl
      | unknown item hpath hid => exact hressource item
      | client item service definition hpath hid hservice hdef =>
          cases service with
          | none => exact hressource item
          | some name => exact hressource item

theorem definitions_spec {a₁ : AgentApi} {definitions : List (String × Json)}
    (hapi : a₁.api = doc.value) (h : a₁.definitions = .ok definitions) :
    (definitions.map Prod.fst).Nodup ∧ ∀ d, d ∈ definitions ↔
      d ∈ doc.value.entriesAt "definitions" ∨
        d.1 ∉ (doc.value.entriesAt "definitions").map Prod.fst ∧ d.2 = .null ∧
          d.1 ∈ a₁.asked := by
  obtain ⟨w, hw, h⟩ := bind_eq_ok.mp h
  cases h
  rw [hapi] at hw
  rw [← entriesAt_of_member hw]
  constructor
  · rw [List.map_append, List.map_map]
    apply List.Nodup.append doc.distinctDefinitions
    · have hcreated := a₁.asked.nodup_dedup.filter fun name =>
        decide (name ∉ (doc.value.entriesAt "definitions").map Prod.fst)
      simpa only [Function.comp_def, List.map_id'] using hcreated
    · intro name hmem hcreated
      obtain ⟨name', hname', rfl⟩ := List.mem_map.mp hcreated
      exact absurd hmem (of_decide_eq_true (List.mem_filter.mp hname').2)
  · rintro ⟨name, definition⟩
    simp only [List.mem_append, List.mem_map, List.mem_filter, List.mem_dedup, decide_eq_true_eq,
      Prod.mk.injEq]
    apply or_congr_right
    constructor
    · rintro ⟨name', ⟨hasked, hnot⟩, rfl, rfl⟩
      exact ⟨hnot, rfl, hasked⟩
    · rintro ⟨hnot, rfl, hasked⟩
      exact ⟨name, ⟨hasked, hnot⟩, rfl, rfl⟩

theorem Updates.makes (h : Updates (Catalog.store col) db doc a c a' c' news c₁) :
    ∃ definitions, Makes col definitions c c' ∧
      ∀ name definition, (name, definition) ∈ definitions ↔ doc.Defines name definition := by
  have hall := h.described rfl
  have htables : c₁.tables = c.tables := describeAll_tables hall
  obtain ⟨a₁, hapi, hasked, hrun⟩ := h.tables
  obtain ⟨definitions, hdefinitions, hrun⟩ := bind_eq_ok.mp hrun
  obtain ⟨hnodup, hmem⟩ := definitions_spec hapi hdefinitions
  have hmakes : Makes col definitions c₁ c' := createTables_makes hnodup hrun
  refine ⟨definitions, ⟨fun table hne => ?_, fun table column => ?_⟩, fun name definition => ?_⟩
  · rw [hmakes.tables table hne, haveTable, haveTable, htables]
  · rw [hmakes.columns]
    simp only [tableHasColumn, haveTable, htables]
  · rw [hmem, ApiDocument.Defines, hasked]
    apply or_congr_right
    apply and_congr_right
    intro _
    apply and_congr_right
    intro _
    constructor
    · intro hname
      obtain ⟨n, hn, hname⟩ := List.mem_map.mp hname
      obtain ⟨path, hpath, item, service, m, t, -, -, -, hdesc⟩ := exists_path hn hall
      exact ⟨path, hpath, item, hdesc.reads, hdesc.table.trans hname⟩
    · rintro ⟨path, hpath, item, hread, hname⟩
      obtain ⟨m, t, service, -, -, -, n, hn, -, -, htable, -⟩ :=
        exists_described hpath hread hall
      exact List.mem_map.mpr ⟨n, hn, htable.trans hname⟩

/-- A table has a column after the update exactly if it is provided. -/
theorem Updates.provided_iff (h : Updates (Catalog.store col) db doc a c a' c' news c₁) :
    c'.tableHasColumn col ("d$" ++ table) column = true ↔ Provided col c doc table column := by
  obtain ⟨definitions, hmakes, hmem⟩ := h.makes
  rw [hmakes.columns, Provided]
  apply or_congr_right
  constructor
  · rintro ⟨⟨name, definition⟩, hd, hhandled, htable, hgives⟩
    cases dollar_inj htable
    exact ⟨definition, (hmem _ _).mp hd, hhandled, hgives⟩
  · rintro ⟨definition, hdefines, hhandled, hgives⟩
    exact ⟨(table, definition), (hmem _ _).mpr hdefines, hhandled, rfl, hgives⟩

theorem Updates.keeps_columns (h : Updates (Catalog.store col) db doc a c a' c' news c₁)
    (hcolumn : c.tableHasColumn col table column = true) :
    c'.tableHasColumn col table column = true := by
  obtain ⟨definitions, hmakes, -⟩ := h.makes
  exact (hmakes.columns _ _).mpr (Or.inl hcolumn)

/-! ### One update -/

/-- The columns of a client that is bound to a description of the document. -/
theorem Updates.insertColumns_eq (h : Updates (Catalog.store col) db doc a c a' c' news c₁)
    (hn : n ∈ news) (isService : Bool) :
    insertColumns doc isService n.table =
      (if isService then "serv_id" else "host_id") :: "res_id" ::
        n.definition.entries.map Prod.fst := by
  rw [insertColumns, h.definition hn]

theorem Updates.rebind_insertable_iff {serial : ℕ}
    (h : Updates (Catalog.store col) db doc a c a' c' news c₁) (hn : n ∈ news) :
    Insertable col c' (b.rebind serial n) ↔
      ∀ column ∈ insertColumns doc b.client.isService n.table,
        Provided col c doc b.client.table column := by
  rw [h.insertColumns_eq hn]
  simp only [← h.provided_iff]
  rfl

theorem Updates.fresh_insertable_iff {serial : ℕ}
    (h : Updates (Catalog.store col) db doc a c a' c' news c₁) (hn : n ∈ news) :
    Insertable col c' (BoundClient.fresh db serial n) ↔
      ∀ column ∈ insertColumns doc n.isService n.table, Provided col c doc n.table column := by
  rw [h.insertColumns_eq hn]
  simp only [← h.provided_iff]
  rfl

/-- The clients of the agent can insert exactly if the document provides for them. -/
theorem Updates.insertable_iff (h : Updates (Catalog.store col) db doc a c a' c' news c₁)
    (ha : ∀ b ∈ a.ressources, Insertable col c b) :
    (∀ b ∈ a'.ressources, Insertable col c' b) ↔
      ∀ path ∈ doc.paths, ∀ item service, readPath path = .ok (some item) →
        readService path.2 = .ok service → ∀ table isService,
          Target a path item service table isService →
            ∀ column ∈ insertColumns doc isService item.table, Provided col c doc table column := by
  have hall := h.described rfl
  constructor
  · intro hafter path hpath item service hread hservice table isService htarget
    obtain ⟨m, t, service', -, -, hservice', n, hn, -, hurl, htable, hkind, -⟩ :=
      exists_described hpath hread hall
    rw [hservice] at hservice'
    cases hservice'
    rw [← htable]
    cases htarget with
    | kept b hb hbase =>
        have hmem : b.baseurl ∈ doc.paths.map Prod.fst := hbase ▸ List.mem_map_of_mem hpath
        have hins := hafter _ (h.mem_ressources.mpr (Or.inl ⟨b, hb, hmem, rfl⟩))
        rw [h.after_eq hn (hurl.trans hbase.symm)] at hins
        exact (h.rebind_insertable_iff hn).mp hins
    | made hnew =>
        have hins := hafter _ (h.mem_ressources.mpr (Or.inr ⟨n, hn, hurl ▸ hnew, rfl⟩))
        rw [← hkind, ← htable]
        exact (h.fresh_insertable_iff hn).mp hins
  · intro hdoc b hb
    rcases h.mem_ressources.mp hb with ⟨d, hd, -, rfl⟩ | ⟨n, hn, hnew, rfl⟩
    · rcases d.after_cases (a.serial + 1) news with ⟨n, hn, hurl, heq⟩ | ⟨-, heq⟩
      · obtain ⟨path, hpath, item, service, m, t, -, -, -, hdesc⟩ := exists_path hn hall
        rw [heq, h.rebind_insertable_iff hn, ← hdesc.table]
        exact hdoc path hpath item service hdesc.reads hdesc.readsService _ _
          (.kept d hd (hurl.symm.trans hdesc.baseurl.symm))
      · rw [heq]
        intro column hcolumn
        exact h.keeps_columns (ha d hd column hcolumn)
    · obtain ⟨path, hpath, item, service, m, t, -, -, -, hdesc⟩ := exists_path hn hall
      rw [h.fresh_insertable_iff hn, ← hdesc.table, ← hdesc.isService]
      exact hdoc path hpath item service hdesc.reads hdesc.readsService _ _
        (.made (hdesc.baseurl ▸ hnew))

theorem provides_of_not_document (h : ∀ doc, call.reply ≠ .document doc) :
    Provides col f call := by
  rw [Provides]
  split
  · next doc hdoc => exact absurd hdoc (h doc)
  · trivial

/-- An update after which every client can insert, of clients that can, is one that provides. -/
theorem Fleet.insertable_update_iff (hf : f.Insertable col) (h : f.update col call = .ok f') :
    f'.Insertable col ↔ Provides col f call := by
  obtain ⟨a', c', hupdate, rfl⟩ := Fleet.update_eq_ok h
  rcases updateApi_other hupdate with ⟨doc, hdoc⟩ | ⟨hnot, hclients, rfl⟩
  · rw [hdoc] at hupdate
    obtain ⟨news, c₁, hupdates⟩ := updateApi_document hupdate
    simp only [Provides, hdoc]
    rw [← hupdates.insertable_iff (hf call.agent)]
    rw [Fleet.Insertable, Fleet.forall_update_iff (WatchedBack.Insertable col c')]
    apply and_iff_left
    intro id _ b hb column hcolumn
    exact hupdates.keeps_columns (hf id b hb column hcolumn)
  · apply iff_of_true _ (provides_of_not_document hnot)
    apply (Fleet.forall_update_iff (WatchedBack.Insertable col f.catalog)).mpr
    rw [hclients]
    exact ⟨hf call.agent, fun id _ => hf id⟩

/-! ### Every run -/

/-- In every state of a run each column that a client inserts into is in its table, exactly if
every document provides the columns of the inserts for its paths. -/
theorem columns_exist_iff (c : Catalog) (calls : List UpdateCall)
    (hrun : Succeeds ((Fleet.start c).run col calls)) :
    Always (Fleet.update col) (Fleet.Insertable col) (Fleet.start c) calls ↔
      EachStep (Fleet.update col) (Provides col) (Fleet.start c) calls := by
  apply always_iff_eachStep (fun _ => True)
  · intro f call f' _ _
    trivial
  · intro f call f' _ hf h
    exact Fleet.insertable_update_iff hf h
  · trivial
  · intro id b hb
    cases hb
  · exact hrun

end columns

/-! ### The disk of a host -/

theorem disk_provides :
    Provides .binary (Fleet.start emptyCatalog) (diskUpdate (diskDoc "disk")) := by
  have hservice : readService (getterPath "#/definitions/disk" [("x-host", .str "web")]) =
      .ok none := rfl
  have hhandled : Handled ("disk", oneProperty "pctfree" "number") :=
    eq_ok_of_toOption (by decide +kernel)
  have htyped : Typed (.obj [("type", .str "number")]) := ⟨"double(20,4)", rfl⟩
  intro path hpath item service hitem hserv table isService htarget column hcolumn
  cases List.mem_singleton.mp hpath
  have hdisk : item = ⟨"host", "disk", "disk", "web"⟩ :=
    Option.some.inj (Except.ok.inj (hitem.symm.trans disk_reads))
  have hhost : service = none := Except.ok.inj (hserv.symm.trans hservice)
  subst hdisk hhost
  cases htarget with
  | kept b hb hurl => cases hb
  | made hnew =>
      refine Or.inr ⟨oneProperty "pctfree" "number", Or.inl (List.mem_singleton_self _), hhandled, ?_⟩
      have hlist : insertColumns (diskDoc "disk") false "disk" =
          ["host_id", "res_id", "pctfree"] := by
        decide +kernel
      have hcolumns : column ∈ ["host_id", "res_id", "pctfree"] := hlist ▸ hcolumn
      simp only [List.mem_cons, List.not_mem_nil, or_false] at hcolumns
      rcases hcolumns with rfl | rfl | rfl
      · exact Or.inr ⟨rfl, "host_id", by simp [idColumn, oneProperty, Json.isMember, List.lookup],
          Collation.refl _ _⟩
      · exact Or.inr ⟨rfl, "res_id", by simp, Collation.refl _ _⟩
      · exact Or.inl ⟨_, List.mem_singleton_self _, htyped, Collation.refl _ _⟩

theorem columns_exist_disk :
    Always (Fleet.update .binary) (Fleet.Insertable .binary) (Fleet.start emptyCatalog)
      [diskUpdate (diskDoc "disk")] := by
  apply (columns_exist_iff emptyCatalog [diskUpdate (diskDoc "disk")] disk_run).mpr
  exact eachStep_singleton.mpr disk_provides

/-- The disk, with a property that is neither a number nor an integer. -/
def flaggedDisk : ApiDocument := diskDocOf "disk" (oneProperty "failing" "boolean")

/-- The property is inserted, and no column is made of it. -/
theorem flag_without_column :
    ∃ f, (Fleet.start emptyCatalog).run .binary [diskUpdate flaggedDisk] = .ok f ∧
      ¬ f.Insertable .binary := by
  have heval : ((Fleet.start emptyCatalog).run .binary [diskUpdate flaggedDisk]).toOption.map
      (fun f => ((f.agents 0).ressources.map fun b =>
        (b.client.baseInsert.table, b.client.baseInsert.columnNames),
          f.catalog.tableHasColumn .binary "d$disk" "failing")) =
      some ([("d$disk", ["host_id", "res_id", "failing"])], false) := by
    decide +kernel
  obtain ⟨f, hf, heq⟩ := exists_ok_of_toOption_map heval
  obtain ⟨hinserts, hmissing⟩ := Prod.mk.inj heq
  refine ⟨f, hf, fun hins => ?_⟩
  obtain ⟨b, hb, hinsert⟩ := List.mem_map.mp (hinserts ▸ List.mem_singleton_self _)
  obtain ⟨htable, hcolumns⟩ := Prod.mk.inj hinsert
  have hcolumn := hins 0 b hb "failing" (by rw [hcolumns]; decide)
  rw [htable, hmissing] at hcolumn
  cases hcolumn

end WatchedBack
