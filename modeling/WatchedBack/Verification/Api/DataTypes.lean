import WatchedBack.Verification.Api.Rebuild
import WatchedBack.Verification.Api.Tables

/-! # Tables that receive samples and the list of the aggregator

A row of `c$ressources` is inserted for the first path of a name and origin, so a table that only
later paths name gets none. -/

namespace WatchedBack

open Fallible Reconcile Catalog

def Catalog.dataTypes (c : Catalog) : List String := c.ressources.map RessourceRow.dataType

/-- Each table that a client inserts into is the data type of a resource, and in the list of the
aggregator. -/
def Fleet.Covered (col : Collation) (config : List AggregateConfig) (f : Fleet) : Prop :=
  ∀ id, ∀ b ∈ (f.agents id).ressources, ∀ table, b.client.baseInsert.table = "d$" ++ table →
    table ∈ f.catalog.dataTypes ∧
      ∃ row ∈ dataConfigs col config f.catalog.ressources, col.same row.dataType table = true

def sameRessource (col : Collation) (p q : PathItem) : Bool :=
  col.same p.name q.name ∧ col.same p.origin q.origin

/-- A path whose resource neither the tables nor an earlier path have. -/
structure Introduces (col : Collation) (c : Catalog) (before : List (String × Json))
    (path : String × Json) (item : PathItem) : Prop where
  reads : readPath path = .ok (some item)
  unknown : ∀ row ∈ c.ressources, isRessource col item.origin item.name row = false
  first : ∀ p ∈ before, ∀ other, readPath p = .ok (some other) → sameRessource col other item = false

/-- The table is a data type already, or a path of it introduces its resource. -/
def Announced (col : Collation) (c : Catalog) (paths : List (String × Json)) (table : String) :
    Prop :=
  table ∈ c.dataTypes ∨ ∃ before path after item, paths = before ++ path :: after ∧
    Introduces col c before path item ∧ item.table = table

/-- The table of each path for which the agent has no client yet is announced. -/
def Announces (col : Collation) (f : Fleet) (call : UpdateCall) : Prop :=
  match call.reply with
  | .document doc => ∀ path ∈ doc.paths,
      path.1 ∉ (f.agents call.agent).ressources.map BoundClient.baseurl →
        ∀ item, readPath path = .ok (some item) → Announced col f.catalog doc.paths item.table
  | _ => True

section datatypes

variable {col : Collation} {db : Database} {doc : ApiDocument} {a a' : AgentApi}
  {c c' c₁ m : Catalog} {news : List RessourceClient} {paths : List (String × Json)}
  {path : String × Json} {table : String} {api : Json} {f f' : Fleet} {call : UpdateCall}

/-! ### The list of the aggregator -/

theorem mem_distinctNames (col : Collation) {names : List String} (h : table ∈ names) :
    ∃ name ∈ distinctNames col names, col.same name table = true := by
  have hloop : ∀ seen : List String,
      (∃ name ∈ seen, col.same name table = true) ∨ table ∈ names →
      ∃ name ∈ names.foldl (fun seen name =>
        if seen.any fun s => col.same s name then seen else seen ++ [name]) seen,
        col.same name table = true := by
    clear h
    induction names with
    | nil =>
        intro seen h
        simpa using h
    | cons name names ih =>
        intro seen h
        apply ih
        rcases h with ⟨s, hs, hsame⟩ | h
        · refine Or.inl ⟨s, ?_, hsame⟩
          dsimp only
          split
          · exact hs
          · exact List.mem_append_left _ hs
        · rcases List.mem_cons.mp h with rfl | h
          · refine Or.inl ?_
            dsimp only
            split
            · next hany => exact List.any_eq_true.mp hany
            · exact ⟨table, List.mem_append_right _ (List.mem_singleton_self _), col.refl table⟩
          · exact Or.inr h
  exact hloop [] (Or.inr h)

/-- Every data type has a configuration if there is a default. -/
theorem mem_dataConfigs {config : List AggregateConfig}
    (hdefault : ∃ row ∈ config, col.same row.name "default" = true) (h : table ∈ c.dataTypes) :
    ∃ row ∈ dataConfigs col config c.ressources, col.same row.dataType table = true := by
  obtain ⟨name, hname, hsame⟩ := mem_distinctNames col h
  obtain ⟨row, hrow, hdef⟩ := hdefault
  simp only [dataConfigs, List.mem_flatMap, List.mem_filter]
  by_cases hown : (config.filter fun a => col.same name a.name).isEmpty
  · exact ⟨⟨name, row.data⟩, ⟨row, ⟨hrow, hdef⟩, name, hname, by simp [hown]⟩, hsame⟩
  · obtain ⟨own, hmem⟩ := List.exists_mem_of_ne_nil _ (mt List.isEmpty_iff.mpr hown)
    refine ⟨⟨name, own.data⟩, ⟨row, ⟨hrow, hdef⟩, name, hname, ?_⟩, hsame⟩
    rw [if_neg hown]
    exact List.mem_map_of_mem hmem

/-! ### Rows of a document -/

/-- What is known of a resource when a loop has come past its path. -/
theorem describe_dataTypes {new : Option RessourceClient}
    (h : Description (Catalog.store col) api path c new m) :
    (readPath path = .ok none ∧ m.ressources = c.ressources) ∨
      ∃ item, readPath path = .ok (some item) ∧
        m.ressources = (lookupRessource (Catalog.store col) item c).2.ressources := by
  cases h with
  | other hpath => exact Or.inl ⟨hpath, rfl⟩
  | unknown item hpath hid => exact absurd hid (lookupRessource_spec col item c).2.2
  | client item service definition hpath hid hservice hdef =>
      refine Or.inr ⟨item, hpath, ?_⟩
      cases service with
      | none => rfl
      | some name => rfl

theorem any_isRessource_eq_false_iff {origin name : String} :
    c.ressources.any (isRessource col origin name) = false ↔
      ∀ row ∈ c.ressources, isRessource col origin name row = false := by
  simp [List.any_eq_false]

/-- A name is still unknown after a path exactly if it was, and the path is of another. -/
theorem unknown_after_iff {item other : PathItem} :
    (∀ row ∈ (lookupRessource (Catalog.store col) item c).2.ressources,
        isRessource col other.origin other.name row = false) ↔
      (∀ row ∈ c.ressources, isRessource col other.origin other.name row = false) ∧
        sameRessource col item other = false := by
  rw [lookupRessource_store]
  split
  · next hknown =>
    refine ⟨fun h => ⟨h, ?_⟩, fun h => h.1⟩
    -- a row of the path's resource would be one of the other's too
    obtain ⟨row, hrow, hsame⟩ := List.any_eq_true.mp hknown
    obtain ⟨hname, horigin⟩ := of_decide_eq_true hsame
    by_contra hother
    obtain ⟨hname', horigin'⟩ := of_decide_eq_true (Bool.of_not_eq_false hother)
    have hrowOther : isRessource col other.origin other.name row = true :=
      decide_eq_true ⟨col.trans hname hname', col.trans horigin horigin'⟩
    rw [h row hrow] at hrowOther
    cases hrowOther
  · simp only [Catalog.insertRessource, List.mem_append, List.mem_singleton]
    constructor
    · intro h
      exact ⟨fun row hrow => h row (Or.inl hrow), h _ (Or.inr rfl)⟩
    · rintro ⟨hold, hnew⟩ row (hrow | rfl)
      · exact hold row hrow
      · exact hnew

theorem mem_dataTypes_lookup {item : PathItem} :
    table ∈ (lookupRessource (Catalog.store col) item c).2.dataTypes ↔
      table ∈ c.dataTypes ∨ (∀ row ∈ c.ressources,
        isRessource col item.origin item.name row = false) ∧ item.table = table := by
  rw [lookupRessource_store, ← any_isRessource_eq_false_iff]
  cases hknown : c.ressources.any (isRessource col item.origin item.name) with
  | true => simp
  | false =>
      simp only [Bool.false_eq_true, if_false, true_and, dataTypes, Catalog.insertRessource,
        List.map_append, List.mem_append, List.map_cons, List.map_nil, List.mem_singleton, eq_comm]

theorem introduces_nil {item : PathItem} : Introduces col c [] path item ↔
    readPath path = .ok (some item) ∧
      ∀ row ∈ c.ressources, isRessource col item.origin item.name row = false := by
  constructor
  · intro h
    exact ⟨h.reads, h.unknown⟩
  · intro h
    exact ⟨h.1, h.2, by simp⟩

theorem introduces_cons {p : String × Json} {before : List (String × Json)} {item : PathItem} :
    Introduces col c (p :: before) path item ↔
      (∀ other, readPath p = .ok (some other) → sameRessource col other item = false) ∧
        Introduces col c before path item := by
  constructor
  · intro h
    exact ⟨h.first p List.mem_cons_self, h.reads, h.unknown,
      fun r hr => h.first r (List.mem_cons_of_mem p hr)⟩
  · intro h
    exact ⟨h.2.reads, h.2.unknown, List.forall_mem_cons.mpr ⟨h.1, h.2.first⟩⟩

/-- The first path introduces its resource, or a later one introduces its own. -/
theorem announced_cons : Announced col c (path :: paths) table ↔
    (table ∈ c.dataTypes ∨ ∃ item, Introduces col c [] path item ∧ item.table = table) ∨
      ∃ before p after item, paths = before ++ p :: after ∧
        Introduces col c (path :: before) p item ∧ item.table = table := by
  rw [Announced, or_assoc]
  apply or_congr_right
  constructor
  · rintro ⟨before, p, after, item, heq, hitem, htable⟩
    cases before with
    | nil =>
        cases heq
        exact Or.inl ⟨item, hitem, htable⟩
    | cons r before =>
        cases heq
        exact Or.inr ⟨before, p, after, item, rfl, hitem, htable⟩
  · rintro (⟨item, hitem, htable⟩ | ⟨before, p, after, item, rfl, hitem, htable⟩)
    · exact ⟨[], path, paths, item, rfl, hitem, htable⟩
    · exact ⟨path :: before, p, after, item, rfl, hitem, htable⟩

/-- The data types when a loop has come past a path. -/
theorem Description.mem_dataTypes {new : Option RessourceClient}
    (h : Description (Catalog.store col) api path c new m) : table ∈ m.dataTypes ↔
      table ∈ c.dataTypes ∨ ∃ item, Introduces col c [] path item ∧ item.table = table := by
  simp only [introduces_nil]
  rcases describe_dataTypes h with ⟨hread, hrows⟩ | ⟨item, hread, hrows⟩
  · rw [dataTypes, hrows, hread]
    simp [dataTypes]
  · have htypes : m.dataTypes = (lookupRessource (Catalog.store col) item c).2.dataTypes := by
      rw [dataTypes, hrows, dataTypes]
    rw [htypes, mem_dataTypes_lookup, hread]
    simp only [Except.ok.injEq, Option.some.injEq, and_assoc, exists_eq_left']

/-- A later path introduces its resource exactly if it does so with the path before it. -/
theorem Description.introduces_iff {new : Option RessourceClient}
    (h : Description (Catalog.store col) api path c new m) {before : List (String × Json)}
    {p : String × Json} {item : PathItem} :
    Introduces col m before p item ↔ Introduces col c (path :: before) p item := by
  rw [introduces_cons]
  have hunknown : (∀ row ∈ m.ressources, isRessource col item.origin item.name row = false) ↔
      (∀ row ∈ c.ressources, isRessource col item.origin item.name row = false) ∧
        ∀ other, readPath path = .ok (some other) → sameRessource col other item = false := by
    rcases describe_dataTypes h with ⟨hread, hrows⟩ | ⟨first, hread, hrows⟩
    · rw [hrows, hread]
      simp
    · rw [hrows, hread, unknown_after_iff]
      simp
  constructor
  · intro hm
    obtain ⟨hold, hother⟩ := hunknown.mp hm.unknown
    exact ⟨hother, hm.reads, hold, hm.first⟩
  · intro hc
    exact ⟨hc.2.reads, hunknown.mpr ⟨hc.2.unknown, hc.1⟩, hc.2.first⟩

/-- The data types after a document are those announced. -/
theorem describeAll_dataTypes
    (h : describeAll (Catalog.store col) api paths c = .ok (news, c')) :
    table ∈ c'.dataTypes ↔ Announced col c paths table := by
  induction paths generalizing c news with
  | nil =>
      cases h
      simp [Announced]
  | cons path paths ih =>
      obtain ⟨new, m, rest, hnew, hrest, -⟩ := describeAll_cons_eq_ok.mp h
      have hdesc := describe_description hnew
      rw [ih hrest, Announced, announced_cons, hdesc.mem_dataTypes]
      simp only [hdesc.introduces_iff]

/-! ### One update -/

/-- The insert of a client goes to the table of the client. -/
def Fleet.Named (f : Fleet) : Prop :=
  ∀ id, ∀ b ∈ (f.agents id).ressources, b.client.baseInsert.table = "d$" ++ b.client.table

theorem Updates.named (h : Updates (Catalog.store col) db doc a c a' c' news c₁)
    (ha : ∀ b ∈ a.ressources, b.client.baseInsert.table = "d$" ++ b.client.table) :
    ∀ b ∈ a'.ressources, b.client.baseInsert.table = "d$" ++ b.client.table := by
  intro b hb
  rcases h.mem_ressources.mp hb with ⟨d, hd, -, rfl⟩ | ⟨n, -, -, rfl⟩
  · rcases d.after_cases (a.serial + 1) news with ⟨n, -, -, heq⟩ | ⟨-, heq⟩
    · rw [heq]
      rfl
    · rw [heq]
      exact ha d hd
  · rfl

theorem Fleet.Named.update (hf : f.Named) (h : f.update col call = .ok f') : f'.Named := by
  obtain ⟨a', c', hupdate, rfl⟩ := Fleet.update_eq_ok h
  apply (Fleet.forall_update_iff fun b =>
    b.client.baseInsert.table = "d$" ++ b.client.table).mpr
  refine ⟨?_, fun id _ => hf id⟩
  rcases updateApi_other hupdate with ⟨doc, hdoc⟩ | ⟨-, hclients, -⟩
  · rw [hdoc] at hupdate
    obtain ⟨news, c₁, hupdates⟩ := updateApi_document hupdate
    exact hupdates.named (hf call.agent)
  · rw [hclients]
    exact hf call.agent

/-- Of a client that inserts into its own table, the table is what has to be covered. -/
theorem Fleet.Named.covered_iff {config : List AggregateConfig} (hf : f.Named)
    (hdefault : ∃ row ∈ config, col.same row.name "default" = true) :
    f.Covered col config ↔
      ∀ id, ∀ b ∈ (f.agents id).ressources, b.client.table ∈ f.catalog.dataTypes := by
  constructor
  · intro h id b hb
    exact (h id b hb b.client.table (hf id b hb)).1
  · intro h id b hb table htable
    have heq : b.client.table = table := dollar_inj ((hf id b hb).symm.trans htable)
    rw [← heq]
    exact ⟨h id b hb, mem_dataConfigs hdefault (h id b hb)⟩

theorem Extends.dataTypes (h : c.Extends c') (hmem : table ∈ c.dataTypes) : table ∈ c'.dataTypes := by
  obtain ⟨row, hrow, rfl⟩ := List.mem_map.mp hmem
  exact List.mem_map_of_mem (h.ressources.mem hrow)

theorem Updates.dataTypes (h : Updates (Catalog.store col) db doc a c a' c' news c₁) :
    c'.dataTypes = c₁.dataTypes := by
  obtain ⟨a₁, -, -, htables⟩ := h.tables
  rw [Catalog.dataTypes, (createTables_sameRows htables).ressources, Catalog.dataTypes]

/-- New clients have announced tables exactly if the paths without a client do. -/
theorem Updates.announces_iff (h : Updates (Catalog.store col) db doc a c a' c' news c₁) :
    (∀ n ∈ news, n.baseurl ∉ a.ressources.map BoundClient.baseurl → n.table ∈ c'.dataTypes) ↔
      ∀ path ∈ doc.paths, path.1 ∉ a.ressources.map BoundClient.baseurl →
        ∀ item, readPath path = .ok (some item) → Announced col c doc.paths item.table := by
  have hall := h.described rfl
  simp only [h.dataTypes, describeAll_dataTypes hall]
  constructor
  · intro hnews path hpath hnew item hread
    obtain ⟨m, t, service, -, -, -, n, hn, -, hurl, htable, -⟩ := exists_described hpath hread hall
    rw [← htable]
    exact hnews n hn (hurl ▸ hnew)
  · intro hpaths n hn hnew
    obtain ⟨path, hpath, item, service, m, t, -, -, -, hdesc⟩ := exists_path hn hall
    rw [← hdesc.table]
    exact hpaths path hpath (hdesc.baseurl ▸ hnew) item hdesc.reads

theorem announces_of_not_document (h : ∀ doc, call.reply ≠ .document doc) :
    Announces col f call := by
  rw [Announces]
  split
  · next doc hdoc => exact absurd hdoc (h doc)
  · trivial

/-- An update of a covered fleet leaves it covered exactly if it announces its new tables. -/
theorem Fleet.covered_update_iff {config : List AggregateConfig} (hf : f.Named)
    (hdefault : ∃ row ∈ config, col.same row.name "default" = true)
    (hcovered : f.Covered col config) (h : f.update col call = .ok f') :
    f'.Covered col config ↔ Announces col f call := by
  rw [(hf.update h).covered_iff hdefault]
  rw [hf.covered_iff hdefault] at hcovered
  obtain ⟨a', c', hupdate, rfl⟩ := Fleet.update_eq_ok h
  rcases updateApi_other hupdate with ⟨doc, hdoc⟩ | ⟨hnot, hclients, rfl⟩
  · rw [hdoc] at hupdate
    obtain ⟨news, c₁, hupdates⟩ := updateApi_document hupdate
    simp only [Announces, hdoc]
    rw [← hupdates.announces_iff, Fleet.forall_update_iff fun b => b.client.table ∈ c'.dataTypes]
    constructor
    · intro hafter n hn hnew
      exact hafter.1 _ (hupdates.mem_ressources.mpr (Or.inr ⟨n, hn, hnew, rfl⟩))
    · intro hnews
      refine ⟨fun b hb => ?_, fun id _ b hb => ?_⟩
      · rcases hupdates.mem_ressources.mp hb with ⟨d, hd, -, rfl⟩ | ⟨n, hn, hnew, rfl⟩
        · rw [(after_client _ _ d).table]
          exact Extends.dataTypes hupdates.extends.2 (hcovered call.agent d hd)
        · exact hnews n hn hnew
      · exact Extends.dataTypes hupdates.extends.2 (hcovered id b hb)
  · apply iff_of_true _ (announces_of_not_document hnot)
    apply (Fleet.forall_update_iff fun b => b.client.table ∈ f.catalog.dataTypes).mpr
    rw [hclients]
    exact ⟨hcovered call.agent, fun id _ => hcovered id⟩

/-! ### Every run -/

/-- In every state of a run each table that receives samples is a data type in the list of the
aggregator, exactly if every document announces the tables of the paths that are new to its
agent. -/
theorem tables_covered_iff (c : Catalog) (config : List AggregateConfig)
    (hdefault : ∃ row ∈ config, col.same row.name "default" = true) (calls : List UpdateCall)
    (hrun : Succeeds ((Fleet.start c).run col calls)) :
    Always (Fleet.update col) (Fleet.Covered col config) (Fleet.start c) calls ↔
      EachStep (Fleet.update col) (Announces col) (Fleet.start c) calls := by
  apply always_iff_eachStep Fleet.Named
  · intro f call f' hf h
    exact hf.update h
  · intro f call f' hf hcovered h
    exact Fleet.covered_update_iff hf hdefault hcovered h
  · intro id b hb
    cases hb
  · intro id b hb
    cases hb
  · exact hrun

end datatypes

/-! ### The disk of a host -/

/-- The row that the schema inserts. -/
def defaultConfig : AggregateConfig := ⟨"default", ⟨30, 2, 1, 14, 60, 730, 0⟩⟩

theorem disk_covered :
    Always (Fleet.update .binary) (Fleet.Covered .binary [defaultConfig])
      (Fleet.start emptyCatalog) [diskUpdate (diskDoc "disk")] := by
  refine (tables_covered_iff emptyCatalog [defaultConfig] ⟨_, List.mem_singleton_self _, rfl⟩ _
    disk_run).mpr (eachStep_singleton.mpr ?_)
  intro path hpath _ item hitem
  cases List.mem_singleton.mp hpath
  have hdisk : item = ⟨"host", "disk", "disk", "web"⟩ :=
    Option.some.inj (Except.ok.inj (hitem.symm.trans disk_reads))
  refine Or.inr ⟨[], _, [], item, rfl, ⟨hitem, ?_, ?_⟩, by rw [hdisk]⟩
  · intro row hrow
    cases hrow
  · intro p hp
    cases hp

/-- Two agents describe one resource by different definitions: the table of the second is no data
type. -/
theorem second_definition_uncovered :
    ∃ f, (Fleet.start emptyCatalog).run .binary
        [diskUpdate (diskDoc "disk"), ⟨1, emptyDatabase, .document (diskDoc "storage")⟩] = .ok f ∧
      ¬ f.Covered .binary [defaultConfig] := by
  have heval : (((Fleet.start emptyCatalog).run .binary
      [diskUpdate (diskDoc "disk"), ⟨1, emptyDatabase, .document (diskDoc "storage")⟩]).toOption.map
        fun f => ((f.agents 1).ressources.map fun b => b.client.baseInsert.table,
          f.catalog.dataTypes)) = some (["d$storage"], ["disk"]) := by
    decide +kernel
  obtain ⟨f, hf, heq⟩ := exists_ok_of_toOption_map heval
  obtain ⟨htables, htypes⟩ := Prod.mk.inj heq
  refine ⟨f, hf, fun hcovered => ?_⟩
  obtain ⟨b, hb, htable⟩ := List.mem_map.mp (htables ▸ List.mem_singleton_self "d$storage")
  have hmem := (hcovered 1 b hb "storage" htable).1
  rw [htypes] at hmem
  exact absurd hmem (by decide)

end WatchedBack
