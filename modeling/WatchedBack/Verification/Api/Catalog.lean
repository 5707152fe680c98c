import WatchedBack.Verification.Api.Update
import WatchedBack.Verification.Lookups

/-! # What the updates add to the tables

Names are only added, so an id once looked up stays the answer for its name. -/

namespace WatchedBack

open Fallible Reconcile Growth

namespace Catalog

section lookups

variable (col : Collation)

def ressourceId (c : Catalog) (origin name : String) : Option ℕ :=
  (c.ressources.find? (isRessource col origin name)).map RessourceRow.id

def hostId (c : Catalog) (name : String) : Option ℕ :=
  (c.hosts.find? fun row => col.same row.name name).map NameRow.id

def serviceId (c : Catalog) (hostId : ℕ) (name : String) : Option ℕ :=
  (c.services.find? fun row => row.hostId = hostId ∧ col.same row.name name).map ServiceRow.id

/-- The id of a service of the host, or of the host itself. -/
def ownerId (c : Catalog) (host : String) (service : Option String) : Option ℕ :=
  match service with
  | none => c.hostId col host
  | some name => (c.hostId col host).bind fun id => c.serviceId col id name

end lookups

/-- Rows are kept, and the new ones have new ids. -/
structure Extends (c c' : Catalog) : Prop where
  ressources : Grows RessourceRow.id c.ressources c'.ressources
  hosts : Grows NameRow.id c.hosts c'.hosts
  services : Grows ServiceRow.id c.services c'.services

variable {col : Collation} {c c' c'' : Catalog} {item : PathItem} {service : Option String}
  {origin name host : String} {id n : ℕ}

namespace Extends

@[refl] theorem refl (c : Catalog) : c.Extends c := ⟨.refl _, .refl _, .refl _⟩

@[trans] theorem trans (h : c.Extends c') (h' : c'.Extends c'') : c.Extends c'' :=
  ⟨h.ressources.trans h'.ressources, h.hosts.trans h'.hosts, h.services.trans h'.services⟩

theorem ressourceId (h : c.Extends c') (hid : c.ressourceId col origin name = some id) :
    c'.ressourceId col origin name = some id := by
  obtain ⟨row, hrow, rfl⟩ := Option.map_eq_some_iff.mp hid
  rw [Catalog.ressourceId, h.ressources.find?_eq_some hrow]
  rfl

theorem hostId (h : c.Extends c') (hid : c.hostId col name = some id) :
    c'.hostId col name = some id := by
  obtain ⟨row, hrow, rfl⟩ := Option.map_eq_some_iff.mp hid
  rw [Catalog.hostId, h.hosts.find?_eq_some hrow]
  rfl

theorem serviceId (h : c.Extends c') (hid : c.serviceId col n name = some id) :
    c'.serviceId col n name = some id := by
  obtain ⟨row, hrow, rfl⟩ := Option.map_eq_some_iff.mp hid
  rw [Catalog.serviceId, h.services.find?_eq_some hrow]
  rfl

theorem ownerId (h : c.Extends c') (hid : c.ownerId col host service = some id) :
    c'.ownerId col host service = some id := by
  cases service with
  | none => exact h.hostId hid
  | some name =>
      obtain ⟨hostId, hhost, hservice⟩ := Option.bind_eq_some_iff.mp hid
      exact Option.bind_eq_some_iff.mpr ⟨hostId, h.hostId hhost, h.serviceId hservice⟩

end Extends

/-! ### The calls -/

theorem getHost_spec (col : Collation) (c : Catalog) (name : String) :
    c.Extends (c.getHost col name).2 ∧
      (c.getHost col name).2.hostId col name = some (c.getHost col name).1 := by
  obtain ⟨hgrows, hfind⟩ := getName_spec (fun row => col.same row.name name) name c.hosts
    (fun _ => col.refl name)
  exact ⟨⟨.refl _, hgrows, .refl _⟩, hfind⟩

theorem getService_spec (col : Collation) (c : Catalog) (hostId : ℕ) (name : String) :
    c.Extends (c.getService col hostId name).2 ∧
      (c.getService col hostId name).2.hosts = c.hosts ∧
      (c.getService col hostId name).2.serviceId col hostId name =
        some (c.getService col hostId name).1 := by
  obtain ⟨hgrows, hfind⟩ := getService_rows col hostId name c.services
  exact ⟨⟨.refl _, .refl _, hgrows⟩, rfl, hfind⟩

/-- The row of a resource is added if there is none of its name and origin. -/
theorem lookupRessource_store (col : Collation) (item : PathItem) (c : Catalog) :
    (lookupRessource (store col) item c).2 =
      if c.ressources.any (isRessource col item.origin item.name) then c
      else c.insertRessource item.name item.origin item.table := rfl

theorem lookupRessource_spec (col : Collation) (item : PathItem) (c : Catalog) :
    c.Extends (lookupRessource (store col) item c).2 ∧
      (lookupRessource (store col) item c).2.ressourceId col item.origin item.name =
        some (lookupRessource (store col) item c).1 ∧
      (lookupRessource (store col) item c).1 ≠ 0 := by
  have hids : (lookupRessource (store col) item c).1 =
      ((lookupRessource (store col) item c).2.ressourceId col item.origin item.name).getD 0 := rfl
  have hsome : ((lookupRessource (store col) item c).2.ressources.find?
      (isRessource col item.origin item.name)).isSome := by
    rw [lookupRessource_store, List.find?_isSome]
    split
    · next hany => exact List.any_eq_true.mp hany
    · exact ⟨_, List.mem_append_right _ (List.mem_singleton_self _),
        decide_eq_true ⟨col.refl _, col.refl _⟩⟩
  obtain ⟨row, hrow⟩ := Option.isSome_iff_exists.mp hsome
  have hid : (lookupRessource (store col) item c).2.ressourceId col item.origin item.name =
      some row.id := by
    rw [ressourceId, hrow]
    rfl
  rw [hids, hid]
  refine ⟨?_, rfl, (lookupRessource (store col) item c).2.positive row
    (List.mem_of_find?_eq_some hrow)⟩
  rw [lookupRessource_store]
  split
  · exact .refl c
  · exact ⟨.append (nextId_notMem _), .refl _, .refl _⟩

theorem hostAnswer_spec (col : Collation) (item : PathItem) (c : Catalog) :
    (lookupRessource (store col) item c).2.Extends (hostAnswer (store col) item c).2 ∧
      (hostAnswer (store col) item c).2.hostId col item.host =
        some (hostAnswer (store col) item c).1 :=
  getHost_spec col _ _

theorem ownerAnswer_spec (col : Collation) (item : PathItem) (service : Option String) (c : Catalog) :
    (hostAnswer (store col) item c).2.Extends (ownerAnswer (store col) item service c).2 ∧
      (ownerAnswer (store col) item service c).2.ownerId col item.host service =
        some (ownerAnswer (store col) item service c).1 := by
  obtain ⟨-, hhost⟩ := hostAnswer_spec col item c
  cases service with
  | none => exact ⟨.refl _, hhost⟩
  | some name =>
      obtain ⟨hextends, -, hservice⟩ :=
        getService_spec col (hostAnswer (store col) item c).2
          (hostAnswer (store col) item c).1 name
      exact ⟨hextends, Option.bind_eq_some_iff.mpr ⟨_, hextends.hostId hhost, hservice⟩⟩

/-- The rows of names are the same. -/
structure SameRows (c c' : Catalog) : Prop where
  ressources : c'.ressources = c.ressources
  hosts : c'.hosts = c.hosts
  services : c'.services = c.services

theorem SameRows.trans (h : SameRows c c') (h' : SameRows c' c'') : SameRows c c'' :=
  ⟨h'.ressources.trans h.ressources, h'.hosts.trans h.hosts, h'.services.trans h.services⟩

theorem SameRows.extends (h : SameRows c c') : c.Extends c' := by
  refine ⟨?_, ?_, ?_⟩
  · rw [h.ressources]
  · rw [h.hosts]
  · rw [h.services]

theorem addMissing_store (table : String) (property : String × Json) :
    addMissing (store col) table c property =
      if c.tableHasColumn col table property.1 then .ok c
      else columnType property.2 >>= fun type => match type with
        | some type => .ok (c.addColumn table ⟨property.1, type⟩)
        | none => .ok c := rfl

def haveTable (c : Catalog) (table : String) : Bool := c.tables.any fun t => t.name = table

theorem createTable_store (definition : String × Json) :
    createTable (store col) c definition =
      skipped definition >>= fun skip =>
        if skip then .ok c
        else if c.haveTable ("d$" ++ definition.1) then
          definition.2.member "properties" >>= fun properties =>
            properties.entries.foldlM (addMissing (store col) ("d$" ++ definition.1)) c
        else newColumns definition.2 >>= fun columns =>
          .ok { c with tables := c.tables ++ [⟨"d$" ++ definition.1, columns⟩] } := rfl

theorem tablesKeep_sameRows (c : Catalog) : (store col).TablesKeep (SameRows c) where
  grab _ h := h
  haveTable _ _ h := h
  createTable _ _ h := ⟨h.ressources, h.hosts, h.services⟩
  tableHasColumn _ _ _ h := h
  addColumn _ _ _ h := ⟨h.ressources, h.hosts, h.services⟩

theorem createTables_sameRows {a : AgentApi} (h : createTables (store col) a c = .ok c') :
    SameRows c c' := createTables_keeps (tablesKeep_sameRows c) ⟨rfl, rfl, rfl⟩ h

end Catalog

/-! ### Descriptions -/

section descriptions

variable {col : Collation} {c c' : Catalog} {api : Json} {path : String × Json}
  {paths : List (String × Json)} {new : Option RessourceClient} {news : List RessourceClient}

open Catalog

theorem Description.extends (h : Description (Catalog.store col) api path c new c') :
    c.Extends c' := by
  cases h with
  | other hpath => exact .refl _
  | unknown item hpath hid => exact absurd hid (lookupRessource_spec col item c).2.2
  | client item service definition hpath hid hservice hdef =>
      have hressource := (lookupRessource_spec col item c).1
      exact (hressource.trans (hostAnswer_spec col item c).1).trans (ownerAnswer_spec col item service c).1

theorem describeAll_extends (h : describeAll (Catalog.store col) api paths c = .ok (news, c')) :
    c.Extends c' := by
  induction paths generalizing c news with
  | nil =>
      cases h
      exact .refl _
  | cons path paths ih =>
      obtain ⟨new, m, rest, hnew, hrest, -⟩ := describeAll_cons_eq_ok.mp h
      exact (describe_description hnew).extends.trans (ih hrest)

/-- The name and the origin of the resource of a path. -/
def nameOf (baseurl : String) : Except Fault (String × String) :=
  pathRes (Utf8.bytes baseurl) >>= ressourceName

/-- Nothing is read of a path unless it is a history with a getter. -/
theorem readPath_cases {item : Option PathItem} (h : readPath path = .ok item) :
    (item = none ∧ ¬ (afterLast path.1.toList = "history".toList ∧
      path.2.isMember "get" = .ok true)) ∨
    ∃ i, item = some i ∧ afterLast path.1.toList = "history".toList ∧
      path.2.isMember "get" = .ok true ∧ nameOf path.1 = .ok (i.origin, i.name) := by
  obtain ⟨res, hres, h⟩ := bind_eq_ok.mp h
  obtain ⟨⟨origin, name⟩, hname, h⟩ := bind_eq_ok.mp h
  have hof : nameOf path.1 = .ok (origin, name) := bind_eq_ok.mpr ⟨res, hres, hname⟩
  dsimp only at h
  split at h
  · next hne =>
    cases h
    exact Or.inl ⟨rfl, fun hget => hne hget.1⟩
  · next heq =>
    obtain ⟨isGet, hget, h⟩ := bind_eq_ok.mp h
    cases isGet with
    | false =>
        cases h
        refine Or.inl ⟨rfl, fun hgetter => ?_⟩
        rw [hget] at hgetter
        cases hgetter.2
    | true =>
        obtain ⟨v, -, h⟩ := bind_eq_ok.mp h
        obtain ⟨ref, -, h⟩ := bind_eq_ok.mp h
        obtain ⟨w, -, h⟩ := bind_eq_ok.mp h
        obtain ⟨host, -, h⟩ := bind_eq_ok.mp h
        cases h
        exact Or.inr ⟨_, rfl, not_not.mp heq, hget, hof⟩

theorem readPath_nameOf {item : PathItem} (h : readPath path = .ok (some item)) :
    nameOf path.1 = .ok (item.origin, item.name) := by
  rcases readPath_cases h with ⟨hnone, -⟩ | ⟨i, hitem, -, -, hname⟩
  · cases hnone
  · cases hitem
    exact hname

/-- What the tables have of a client: the id of its resource, and its host or service. -/
structure KnownClient (col : Collation) (c : Catalog) (b : RessourceClient) : Prop where
  ressource : ∃ origin name, nameOf b.baseurl = .ok (origin, name) ∧
    c.ressourceId col origin name = some b.resId
  host : b.isService = false → b.hostId ∈ c.hosts.map NameRow.id
  service : b.isService = true →
    ∃ row ∈ c.services, row.id = b.hostId ∧ row.hostId ∈ c.hosts.map NameRow.id

theorem KnownClient.extends {b : RessourceClient} (h : KnownClient col c b) (hext : c.Extends c') :
    KnownClient col c' b := by
  obtain ⟨origin, name, hname, hid⟩ := h.ressource
  refine ⟨⟨origin, name, hname, hext.ressourceId hid⟩, fun hhost => ?_, fun hservice => ?_⟩
  · exact hext.hosts.map_mem (h.host hhost)
  · obtain ⟨row, hrow, hrowid, hhost⟩ := h.service hservice
    exact ⟨row, hext.services.mem hrow, hrowid, hext.hosts.map_mem hhost⟩

theorem mem_hosts_of_hostId {host : String} {id : ℕ} (h : c.hostId col host = some id) :
    id ∈ c.hosts.map NameRow.id := by
  obtain ⟨row, hrow, rfl⟩ := Option.map_eq_some_iff.mp h
  exact List.mem_map_of_mem (List.mem_of_find?_eq_some hrow)

theorem mem_services_of_serviceId {hostId id : ℕ} {name : String}
    (h : c.serviceId col hostId name = some id) :
    ∃ row ∈ c.services, row.id = id ∧ row.hostId = hostId := by
  obtain ⟨row, hrow, rfl⟩ := Option.map_eq_some_iff.mp h
  have hfound := List.find?_some hrow
  rw [decide_eq_true_eq] at hfound
  exact ⟨row, List.mem_of_find?_eq_some hrow, rfl, hfound.1⟩

theorem Description.known {b : RessourceClient}
    (h : Description (Catalog.store col) api path c (some b) c') : KnownClient col c' b := by
  cases h with
  | client item service definition hpath hid hservice hdef =>
      obtain ⟨-, hressource, -⟩ := lookupRessource_spec col item c
      obtain ⟨hext, hhost⟩ := hostAnswer_spec col item c
      obtain ⟨hext', howner⟩ := ownerAnswer_spec col item service c
      refine ⟨⟨item.origin, item.name, readPath_nameOf hpath,
        hext'.ressourceId (hext.ressourceId hressource)⟩, fun hkind => ?_, fun hkind => ?_⟩
      · cases service with
        | none => exact mem_hosts_of_hostId howner
        | some name => cases hkind
      · cases service with
        | none => cases hkind
        | some name =>
            obtain ⟨hostId, hid, hserv⟩ := Option.bind_eq_some_iff.mp howner
            obtain ⟨row, hrow, hrowid, hrowhost⟩ := mem_services_of_serviceId hserv
            exact ⟨row, hrow, hrowid, hrowhost ▸ mem_hosts_of_hostId hid⟩

/-- If the tables come to give a name the id of a known client, then they did before. -/
theorem KnownClient.ownerId_before {b : RessourceClient} {host : String} {service : Option String}
    (h : KnownClient col c b) (hext : c.Extends c') (hkind : b.isService = service.isSome)
    (hafter : c'.ownerId col host service = some b.hostId) :
    c.ownerId col host service = some b.hostId := by
  cases service with
  | none =>
      obtain ⟨row, hrow, hid⟩ := Option.map_eq_some_iff.mp hafter
      have hfind := hext.hosts.find?_of_key_mem hrow (hid ▸ h.host hkind)
      exact Option.map_eq_some_iff.mpr ⟨row, hfind, hid⟩
  | some name =>
      obtain ⟨hostId, hhost, hserv⟩ := Option.bind_eq_some_iff.mp hafter
      obtain ⟨known, hknown, hknownid, hknownhost⟩ := h.service hkind
      obtain ⟨row, hrow, hid⟩ := Option.map_eq_some_iff.mp hserv
      -- one row has the id of the client
      have hsame : row = known := List.inj_on_of_nodup_map c'.keyed
        (List.mem_of_find?_eq_some hrow) (hext.services.mem hknown) (hid.trans hknownid.symm)
      have hfound := List.find?_some hrow
      rw [decide_eq_true_eq] at hfound
      obtain ⟨hostRow, hhostRow, hhostId⟩ := Option.map_eq_some_iff.mp hhost
      have hfindHost := hext.hosts.find?_of_key_mem hhostRow
        (by rwa [hhostId, ← hfound.1, hsame])
      have hfind := hext.services.find?_of_key_mem hrow
        (by rw [hsame]; exact List.mem_map_of_mem hknown)
      exact Option.bind_eq_some_iff.mpr ⟨hostId,
        Option.map_eq_some_iff.mpr ⟨hostRow, hfindHost, hhostId⟩,
        Option.map_eq_some_iff.mpr ⟨row, hfind, hid⟩⟩

end descriptions

end WatchedBack
