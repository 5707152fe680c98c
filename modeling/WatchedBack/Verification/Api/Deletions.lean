import WatchedBack.Model.Deletions
import WatchedBack.Verification.Api.Rebuild

/-! # Clients whose rows are deleted

A client keeps the ids that it was made with. The next update inserts a link that was deleted, but a
host, service or resource that was deleted gets a new id, and the client refers to the old one. -/

namespace WatchedBack

open Fallible UniqueIndex

variable {col : Collation}

/-! ### Tables -/

namespace LinkTables

variable {t t' t'' : LinkTables col} {l : ℕ × ℕ} {isService : Bool}

/-- The counters have not gone back, and no old id has a new row. -/
structure Later (t t' : LinkTables col) : Prop where
  ressources : t.ressources.Later t'.ressources
  hosts : t.hosts.Later t'.hosts
  services : t.services.Later t'.services

/-- Rows are only added. -/
structure Within (t t' : LinkTables col) : Prop where
  later : t.Later t'
  ressources : t.ressources.rows ⊆ t'.ressources.rows
  hosts : t.hosts.rows ⊆ t'.hosts.rows
  services : t.services.rows ⊆ t'.services.rows
  links : ∀ isService, t.links isService ⊆ t'.links isService

@[refl] theorem Later.refl (t : LinkTables col) : t.Later t := ⟨.refl _, .refl _, .refl _⟩

@[trans] theorem Later.trans (h : t.Later t') (h' : t'.Later t'') : t.Later t'' :=
  ⟨h.ressources.trans h'.ressources, h.hosts.trans h'.hosts, h.services.trans h'.services⟩

@[refl] theorem Within.refl (t : LinkTables col) : t.Within t :=
  ⟨.refl t, List.Subset.refl _, List.Subset.refl _, List.Subset.refl _, fun _ => List.Subset.refl _⟩

@[trans] theorem Within.trans (h : t.Within t') (h' : t'.Within t'') : t.Within t'' :=
  ⟨h.later.trans h'.later, List.Subset.trans h.ressources h'.ressources,
    List.Subset.trans h.hosts h'.hosts, List.Subset.trans h.services h'.services,
    fun s => List.Subset.trans (h.links s) (h'.links s)⟩

/-- A link refers to rows that are there. -/
theorem of_mem_links (h : l ∈ t.links isService) :
    l.1 ∈ t.owners isService ∧ l.2 ∈ t.ressources.numbers := by
  cases isService with
  | true => exact t.serviceLinks l h
  | false => exact t.hostLinks l h

/-! ### Statements -/

theorem insertRessource_within (t : LinkTables col) (name origin dataType : String) :
    t.Within (t.insertRessource name origin dataType) :=
  ⟨⟨.ensure _ _, .refl _, .refl _⟩, Numbered.subset_ensure _ _, List.Subset.refl _,
    List.Subset.refl _, fun _ => List.Subset.refl _⟩

theorem addHost_within (t : LinkTables col) (name : String) : t.Within (t.addHost name) :=
  ⟨⟨.refl _, .ensure _ _, .refl _⟩, List.Subset.refl _, Numbered.subset_ensure _ _,
    List.Subset.refl _, fun _ => List.Subset.refl _⟩

theorem addService_within (t : LinkTables col) (hostId : ℕ) (name : String) :
    t.Within (t.addService hostId name) := by
  unfold addService
  split
  · exact ⟨⟨.refl _, .refl _, .ensure _ _⟩, List.Subset.refl _, List.Subset.refl _,
      Numbered.subset_ensure _ _, fun _ => List.Subset.refl _⟩
  · exact .refl t

theorem addService_of_mem {hostId : ℕ} (h : hostId ∈ t.hosts.numbers) (name : String) :
    (t.addService hostId name).services = t.services.ensure (hostId, name) ∧
      (t.addService hostId name).hosts = t.hosts := by
  unfold addService
  rw [dif_pos h]
  exact ⟨rfl, rfl⟩

theorem linkHost_within (t : LinkTables col) (hostId resId : ℕ) :
    t.Within (t.linkHost hostId resId) := by
  unfold linkHost
  split
  · refine ⟨⟨.refl _, .refl _, .refl _⟩, List.Subset.refl _, List.Subset.refl _,
      List.Subset.refl _, fun s => ?_⟩
    cases s with
    | true => exact List.Subset.refl _
    | false => exact List.subset_append_left _ _
  · exact .refl t

theorem linkService_within (t : LinkTables col) (servId resId : ℕ) :
    t.Within (t.linkService servId resId) := by
  unfold linkService
  split
  · refine ⟨⟨.refl _, .refl _, .refl _⟩, List.Subset.refl _, List.Subset.refl _,
      List.Subset.refl _, fun s => ?_⟩
    cases s with
    | true => exact List.subset_append_left _ _
    | false => exact List.Subset.refl _
  · exact .refl t

theorem link_within (t : LinkTables col) (isService : Bool) (ownerId resId : ℕ) :
    t.Within (t.link isService ownerId resId) := by
  cases isService with
  | true => exact linkService_within t ownerId resId
  | false => exact linkHost_within t ownerId resId

/-- After the insert there is the link, if its rows are there. -/
theorem mem_links_link {ownerId resId : ℕ} (howner : ownerId ∈ t.owners isService)
    (hres : resId ∈ t.ressources.numbers) :
    (ownerId, resId) ∈ (t.link isService ownerId resId).links isService := by
  cases isService with
  | true =>
      simp only [link, linkService, if_true]
      split
      · exact List.mem_append_right _ (List.mem_singleton_self _)
      · next h =>
        by_contra hnot
        exact h ⟨hnot, howner, hres⟩
  | false =>
      simp only [link, linkHost, Bool.false_eq_true, if_false]
      split
      · exact List.mem_append_right _ (List.mem_singleton_self _)
      · next h =>
        by_contra hnot
        exact h ⟨hnot, howner, hres⟩

theorem restrict_later (t : LinkTables col) (keepRessource : RessourceRow → Bool)
    (keepHost : NameRow → Bool) (keepService : ServiceRow → Bool)
    (keepHostLink keepServiceLink : ℕ × ℕ → Bool) :
    t.Later (t.restrict keepRessource keepHost keepService keepHostLink keepServiceLink) :=
  ⟨.restrict _ _, .restrict _ _, .restrict _ _⟩

theorem delete_later (t : LinkTables col) (d : Deletion) : t.Later (t.delete d) := by
  cases d <;> exact restrict_later t _ _ _ _ _

end LinkTables

/-! ### Clients -/

namespace LinkTables

variable {t t' : LinkTables col} {c : RessourceClient}

/-- The foreign key of the samples and events of a client. -/
def Stores (t : LinkTables col) (c : RessourceClient) : Prop :=
  (c.hostId, c.resId) ∈ t.links c.isService

/-- The rows that the client was made for. -/
def Keeps (t : LinkTables col) (c : RessourceClient) : Prop :=
  c.hostId ∈ t.owners c.isService ∧ c.resId ∈ t.ressources.numbers

/-- The counter of the hosts, or of the services. -/
def nextOwner (t : LinkTables col) (isService : Bool) : ℕ :=
  if isService then t.services.next else t.hosts.next

/-- If the owner is there, it has the names. -/
def OwnerNamed (t : LinkTables col) (host : String) (service : Option String) (id : ℕ) : Prop :=
  match service with
  | none => ∀ row ∈ t.hosts.rows, row.id = id → col.same row.name host = true
  | some name => ∀ row ∈ t.services.rows, row.id = id → col.same row.name name = true ∧
      ∀ h ∈ t.hosts.rows, h.id = row.hostId → col.same h.name host = true

/-- What the tables have of a client whose path the documents give a host and a service, whether its
rows are still there or not. -/
structure Knows (t : LinkTables col) (named : String → String × Option String)
    (c : RessourceClient) : Prop where
  kind : c.isService = (named c.baseurl).2.isSome
  ownerId : c.hostId < t.nextOwner c.isService
  resId : c.resId < t.ressources.next
  owner : t.OwnerNamed (named c.baseurl).1 (named c.baseurl).2 c.hostId
  ressource : ∀ row ∈ t.ressources.rows, row.id = c.resId →
    ∃ origin name, nameOf c.baseurl = .ok (origin, name) ∧
      Catalog.isRessource col origin name row = true

theorem Stores.keeps (h : t.Stores c) : t.Keeps c := of_mem_links h

theorem Stores.within (h : t.Stores c) (hw : t.Within t') : t'.Stores c := hw.links _ h

theorem owner_lt {isService : Bool} {id : ℕ} (h : id ∈ t.owners isService) :
    id < t.nextOwner isService := by
  cases isService with
  | true => exact Numbered.lt_next h
  | false => exact Numbered.lt_next h

theorem OwnerNamed.later {host : String} {service : Option String} {id : ℕ}
    (h : t.OwnerNamed host service id) (hlater : t.Later t')
    (hid : id < t.nextOwner service.isSome) : t'.OwnerNamed host service id := by
  cases service with
  | none =>
      intro row hrow heq
      exact h row (hlater.hosts.old row hrow (heq.trans_lt hid)) heq
  | some name =>
      intro row hrow heq
      have hold := hlater.services.old row hrow (heq.trans_lt hid)
      obtain ⟨hname, hhost⟩ := h row hold heq
      refine ⟨hname, fun r hr hrid => ?_⟩
      have hlt : row.hostId < t.hosts.next := Numbered.lt_next (t.hostOfService row hold)
      exact hhost r (hlater.hosts.old r hr (hrid.trans_lt hlt)) hrid

theorem Knows.later {named : String → String × Option String} (h : t.Knows named c)
    (hlater : t.Later t') : t'.Knows named c := by
  refine ⟨h.kind, ?_, h.resId.trans_le hlater.ressources.next, ?_, ?_⟩
  · have hlt := h.ownerId
    cases hkind : c.isService with
    | true =>
        rw [hkind] at hlt
        exact hlt.trans_le hlater.services.next
    | false =>
        rw [hkind] at hlt
        exact hlt.trans_le hlater.hosts.next
  · exact h.owner.later hlater (h.kind ▸ h.ownerId)
  · intro row hrow heq
    exact h.ressource row (hlater.ressources.old row hrow (heq.trans_lt h.resId)) heq

/-- What is gone does not come back. -/
theorem Keeps.earlier {named : String → String × Option String} (hknows : t.Knows named c)
    (hlater : t.Later t') (h : t'.Keeps c) : t.Keeps c := by
  obtain ⟨howner, hres⟩ := h
  have hlt := hknows.ownerId
  constructor
  · by_contra hgone
    cases hkind : c.isService with
    | true =>
        rw [hkind] at hgone howner hlt
        exact hlater.services.gone hlt hgone howner
    | false =>
        rw [hkind] at hgone howner hlt
        exact hlater.hosts.gone hlt hgone howner
  · by_contra hgone
    exact hlater.ressources.gone hknows.resId hgone hres

end LinkTables

/-! ### Lookups -/

namespace LinkTables

variable {t t' : LinkTables col} {host : String} {service : Option String} {id id' : ℕ}

/-- The owner of the names. -/
def OwnedBy (t : LinkTables col) (host : String) (service : Option String) (id : ℕ) : Prop :=
  match service with
  | none => ∃ row ∈ t.hosts.rows, col.same row.name host = true ∧ row.id = id
  | some name => ∃ h ∈ t.hosts.rows, col.same h.name host = true ∧
      ∃ row ∈ t.services.rows, (row.hostId = h.id ∧ col.same row.name name = true) ∧ row.id = id

theorem OwnedBy.mem (h : t.OwnedBy host service id) : id ∈ t.owners service.isSome := by
  cases service with
  | none =>
      obtain ⟨row, hrow, -, rfl⟩ := h
      exact List.mem_map_of_mem hrow
  | some name =>
      obtain ⟨-, -, -, row, hrow, -, rfl⟩ := h
      exact List.mem_map_of_mem hrow

theorem host_eq {row row' : NameRow} (hrow : row ∈ t.hosts.rows) (hrow' : row' ∈ t.hosts.rows)
    (hid : row.id = row'.id) : row = row' :=
  List.inj_on_of_nodup_map t.hosts.ids hrow hrow' hid

theorem OwnedBy.named (h : t.OwnedBy host service id) : t.OwnerNamed host service id := by
  cases service with
  | none =>
      obtain ⟨row, hrow, hname, rfl⟩ := h
      intro row' hrow' hid
      rw [host_eq hrow' hrow hid]
      exact hname
  | some name =>
      obtain ⟨r, hr, hhost, row, hrow, ⟨hrid, hname⟩, rfl⟩ := h
      intro row' hrow' hid
      have heq : row' = row := List.inj_on_of_nodup_map t.services.ids hrow' hrow hid
      rw [heq]
      refine ⟨hname, fun r' hr' hrid' => ?_⟩
      rw [host_eq hr' hr (hrid'.trans hrid)]
      exact hhost

/-- Names have one owner. -/
theorem OwnedBy.unique (h : t.OwnedBy host service id) (h' : t.OwnerNamed host service id')
    (hmem : id' ∈ t.owners service.isSome) : id' = id := by
  cases service with
  | none =>
      obtain ⟨row, hrow, hname, rfl⟩ := h
      obtain ⟨row', hrow', hid⟩ := List.mem_map.mp hmem
      have hsame := col.trans (h' row' hrow' hid) (col.symm hname)
      rw [← hid, Table.eq_of_found hrow' hrow hsame]
      rfl
  | some name =>
      obtain ⟨r, hr, hhost, row, hrow, ⟨hrid, hname⟩, rfl⟩ := h
      obtain ⟨row', hrow', hid⟩ := List.mem_map.mp hmem
      obtain ⟨hname', hhost'⟩ := h' row' hrow' hid
      obtain ⟨r', hr', hrid'⟩ := List.mem_map.mp (t.hostOfService row' hrow')
      have hosts : r' = r :=
        Table.eq_of_found hr' hr (col.trans (hhost' r' hr' hrid') (col.symm hhost))
      have hsame : (serviceIndex col).same (row'.hostId, row'.name) (row.hostId, row.name) = true :=
        decide_eq_true ⟨hrid'.symm.trans ((congrArg NameRow.id hosts).trans hrid.symm),
          col.trans hname' (col.symm hname)⟩
      rw [← hid, Table.eq_of_found hrow' hrow hsame]
      rfl

theorem OwnedBy.within (h : t.OwnedBy host service id) (hw : t.Within t') :
    t'.OwnedBy host service id := by
  cases service with
  | none =>
      obtain ⟨row, hrow, hfound⟩ := h
      exact ⟨row, hw.hosts hrow, hfound⟩
  | some name =>
      obtain ⟨r, hr, hhost, row, hrow, hfound⟩ := h
      exact ⟨r, hw.hosts hr, hhost, row, hw.services hrow, hfound⟩

/-- The row of a resource. -/
def RessourceNamed (t : LinkTables col) (origin name : String) (id : ℕ) : Prop :=
  ∃ row ∈ t.ressources.rows, Catalog.isRessource col origin name row = true ∧ row.id = id

theorem lookupRessource_links (t : LinkTables col) (item : PathItem) :
    t.Within (lookupRessource (store col) item t).2 ∧
      (lookupRessource (store col) item t).2.RessourceNamed item.origin item.name
        (lookupRessource (store col) item t).1 := by
  have hcall : lookupRessource (store col) item t =
      if t.ressources.rows.any (Catalog.isRessource col item.origin item.name) = true then
        (t.ressources.select (Catalog.isRessource col item.origin item.name), t)
      else ((t.insertRessource item.name item.origin item.table).ressources.select
        (Catalog.isRessource col item.origin item.name),
          t.insertRessource item.name item.origin item.table) := by
    unfold lookupRessource store
    dsimp only
    split <;> rfl
  rw [hcall]
  split
  · next hany => exact ⟨.refl t, Table.select_found (List.any_eq_true.mp hany)⟩
  · refine ⟨insertRessource_within t _ _ _, Table.select_found ?_⟩
    exact Numbered.exists_found_ensure t.ressources ⟨item.table, item.name, item.origin⟩

theorem addHost_number (t : LinkTables col) (name : String) :
    (t.addHost name).OwnedBy name none ((t.addHost name).hosts.number name) :=
  Numbered.ensure_spec t.hosts name

theorem lookupOwner_links (service : Option String) (h : t.OwnedBy host none id) :
    t.Within (lookupOwner (store col) id service t).2 ∧
      (lookupOwner (store col) id service t).2.OwnedBy host service
        (lookupOwner (store col) id service t).1 := by
  cases service with
  | none => exact ⟨.refl t, h⟩
  | some name =>
      have hw : t.Within (t.addService id name) := addService_within t id name
      refine ⟨hw, ?_⟩
      obtain ⟨r, hr, hhost, hrid⟩ := h.within hw
      refine ⟨r, hr, hhost, ?_⟩
      have hrows := (addService_of_mem h.mem name).1
      obtain ⟨row, hrow, hfound, hid⟩ := Numbered.ensure_spec t.services (id, name)
      rw [← hrows] at hrow hid
      obtain ⟨hhostId, hname⟩ := of_decide_eq_true hfound
      exact ⟨row, hrow, ⟨hhostId.trans hrid.symm, hname⟩, hid⟩

end LinkTables

/-! ### One path -/

section path

open LinkTables

variable {t t' : LinkTables col} {api : Json} {path : String × Json} {db : Database}
  {acc acc' : AgentApi × LinkTables col} {named : String → String × Option String}
  {new : RessourceClient} {u : String}

/-- What a path is described as: its resource, and its host or service. -/
structure LinkDescription (t : LinkTables col) (path : String × Json) (item : PathItem)
    (service : Option String) (new : RessourceClient) : Prop where
  reads : readPath path = .ok (some item)
  readsService : readService path.2 = .ok service
  baseurl : new.baseurl = path.1
  isService : new.isService = service.isSome
  ressource : t.RessourceNamed item.origin item.name new.resId
  owner : t.OwnedBy item.host service new.hostId

/-- A path is no resource, or its link is inserted after everything else. -/
theorem Description.linkTables {new : Option RessourceClient}
    (h : Description (store col) api path t new t') :
    (new = none ∧ readPath path = .ok none ∧ t' = t) ∨
      ∃ c m item service, new = some c ∧ t.Within m ∧ LinkDescription m path item service c ∧
        t' = m.link c.isService c.hostId c.resId := by
  cases h with
  | other hpath => exact Or.inl ⟨rfl, hpath, rfl⟩
  | unknown item hpath hid =>
      obtain ⟨-, row, hrow, -, hrowid⟩ := lookupRessource_links t item
      exact absurd (hrowid.trans hid) (Table.positive _ row hrow)
  | client item service definition hpath hid hservice hdef =>
      obtain ⟨hres, row, hrow, hfound⟩ := lookupRessource_links t item
      have hhost := addHost_within (lookupRessource (store col) item t).2 item.host
      obtain ⟨howner, howned⟩ := lookupOwner_links service
        (addHost_number (lookupRessource (store col) item t).2 item.host)
      refine Or.inr ⟨_, _, item, service, rfl, (hres.trans hhost).trans howner, ?_, rfl⟩
      exact ⟨hpath, hservice, rfl, rfl,
        ⟨row, howner.ressources (hhost.ressources hrow), hfound⟩, howned⟩

/-- The names are those of the document. -/
def ApiDocument.Names (doc : ApiDocument) (named : String → String × Option String) : Prop :=
  ∀ path ∈ doc.paths, ∀ item service, readPath path = .ok (some item) →
    readService path.2 = .ok service → named path.1 = (item.host, service)

variable {item : PathItem} {service : Option String}

theorem LinkDescription.within (h : LinkDescription t path item service new) (hw : t.Within t') :
    LinkDescription t' path item service new := by
  obtain ⟨row, hrow, hfound⟩ := h.ressource
  exact ⟨h.reads, h.readsService, h.baseurl, h.isService, ⟨row, hw.ressources hrow, hfound⟩,
    h.owner.within hw⟩

theorem LinkDescription.resId_mem (h : LinkDescription t path item service new) :
    new.resId ∈ t.ressources.numbers := by
  obtain ⟨row, hrow, -, hid⟩ := h.ressource
  exact hid ▸ List.mem_map_of_mem hrow

theorem LinkDescription.knows (h : LinkDescription t path item service new)
    (hnamed : named path.1 = (item.host, service)) : t.Knows named new := by
  have hurl : named new.baseurl = (item.host, service) := h.baseurl ▸ hnamed
  refine ⟨?_, ?_, Numbered.lt_next h.resId_mem, ?_, ?_⟩
  · rw [hurl]
    exact h.isService
  · rw [h.isService]
    exact owner_lt h.owner.mem
  · rw [hurl]
    exact h.owner.named
  · intro row hrow hid
    obtain ⟨row', hrow', hfound, hid'⟩ := h.ressource
    have heq : row = row' :=
      List.inj_on_of_nodup_map t.ressources.ids hrow hrow' (hid.trans hid'.symm)
    refine ⟨item.origin, item.name, ?_, heq ▸ hfound⟩
    rw [h.baseurl]
    exact readPath_nameOf h.reads

/-- A client whose rows are there is described by its own ids. -/
theorem LinkDescription.ids_eq {c : RessourceClient} (h : LinkDescription t path item service new)
    (hnamed : named path.1 = (item.host, service)) (hc : t.Knows named c)
    (hurl : c.baseurl = path.1) (hkeeps : t.Keeps c) :
    c.isService = new.isService ∧ c.hostId = new.hostId ∧ c.resId = new.resId := by
  have hnames : named c.baseurl = (item.host, service) := hurl ▸ hnamed
  have hkind : c.isService = service.isSome := by
    rw [hc.kind, hnames]
  refine ⟨hkind.trans h.isService.symm, ?_, ?_⟩
  · have howner := hc.owner
    rw [hnames] at howner
    exact h.owner.unique howner (hkind ▸ hkeeps.1)
  · obtain ⟨row, hrow, hid⟩ := List.mem_map.mp hkeeps.2
    obtain ⟨origin, name, hname, hfound⟩ := hc.ressource row hrow hid
    rw [hurl, readPath_nameOf h.reads] at hname
    obtain ⟨rfl, rfl⟩ := Prod.mk.inj (Except.ok.inj hname)
    obtain ⟨row', hrow', hfound', hid'⟩ := h.ressource
    obtain ⟨hname, horigin⟩ := of_decide_eq_true hfound
    obtain ⟨hname', horigin'⟩ := of_decide_eq_true hfound'
    have hsame : (ressourceNames col).same ((ressourceNames col).keyOf row)
        ((ressourceNames col).keyOf row') = true :=
      decide_eq_true ⟨col.trans hname (col.symm hname'), col.trans horigin (col.symm horigin')⟩
    rw [← hid, ← hid', Table.eq_of_found hrow hrow' hsame]
    rfl

/-- A client whose rows are there has its link. -/
def LinkTables.Heals (t : LinkTables col) (c : RessourceClient) : Prop := t.Keeps c → t.Stores c

/-- What the loop has made of a client, whose path it may have come to. -/
structure LinkTables.Served (t : LinkTables col) (named : String → String × Option String)
    (done : String → Prop) (c : RessourceClient) : Prop where
  knows : t.Knows named c
  heals : done c.baseurl → t.Heals c

variable {done : String → Prop} {c : RessourceClient}

theorem LinkTables.Heals.within (hheals : t.Heals c) (h : t.Knows named c) (hw : t.Within t') :
    t'.Heals c := by
  intro hkeeps
  exact (hheals (hkeeps.earlier h hw.later)).within hw

theorem LinkTables.Served.within (h : t.Served named done c) (hw : t.Within t') : t'.Served named done c :=
  ⟨h.knows.later hw.later, fun hdone => (h.heals hdone).within h.knows hw⟩

theorem LinkTables.Knows.updateDefs (h : t.Knows named c) (definition : Json) :
    t.Knows named (c.updateDefs definition) :=
  ⟨h.kind, h.ownerId, h.resId, h.owner, h.ressource⟩

theorem LinkTables.Knows.init (h : t.Knows named c) (db : Database) : t.Knows named (c.init db) :=
  ⟨h.kind, h.ownerId, h.resId, h.owner, h.ressource⟩

/-- The clients after a description keep what definitions and rules do not change. -/
theorem forall_addRessource {P : RessourceClient → Prop} {a : AgentApi}
    (hdefs : ∀ c definition, P c → P (c.updateDefs definition)) (hinit : ∀ c, P c → P (c.init db))
    (h : ∀ b ∈ a.ressources, P b.client) (hnew : P new) :
    ∀ d ∈ (addRessource db a new).ressources, P d.client := by
  intro d hd
  unfold addRessource at hd
  dsimp only at hd
  split at hd
  · obtain ⟨old, hold, rfl⟩ := List.mem_map.mp hd
    split
    · exact hdefs old.client new.definition (h old hold)
    · exact h old hold
  · rcases List.mem_append.mp hd with hold | hfresh
    · exact h d hold
    · rw [List.mem_singleton.mp hfresh]
      exact hinit new hnew

/-- What a path of the loop comes to. -/
theorem createRessource_links (h : createRessource (store col) db acc path = .ok acc') :
    (readPath path = .ok none ∧ acc' = acc) ∨
      ∃ t new item service, acc.2.Within t ∧ LinkDescription t path item service new ∧
        acc' = (addRessource db acc.1 new, t.link new.isService new.hostId new.resId) := by
  obtain ⟨⟨new, t⟩, hdescribe, h⟩ := bind_eq_ok.mp h
  rcases (describe_description hdescribe).linkTables with ⟨rfl, hpath, rfl⟩ |
    ⟨c, m, item, service, rfl, hwithin, hdesc, rfl⟩
  · cases h
    exact Or.inl ⟨hpath, rfl⟩
  · cases h
    exact Or.inr ⟨m, c, item, service, hwithin, hdesc, rfl⟩

theorem createRessource_within (h : createRessource (store col) db acc path = .ok acc') :
    acc.2.Within acc'.2 := by
  rcases createRessource_links h with ⟨-, rfl⟩ | ⟨t, new, item, service, hwithin, -, rfl⟩
  · exact .refl _
  · exact hwithin.trans (link_within t _ _ _)

theorem LinkDescription.stores (h : LinkDescription t path item service new) :
    (t.link new.isService new.hostId new.resId).Stores new :=
  mem_links_link (h.isService ▸ h.owner.mem) h.resId_mem

/-- One path of the loop: its link is inserted, and with it that of the client of the path. -/
theorem createRessource_served (h : createRessource (store col) db acc path = .ok acc')
    (hnamed : ∀ item service, readPath path = .ok (some item) → readService path.2 = .ok service →
      named path.1 = (item.host, service))
    (hacc : ∀ b ∈ acc.1.ressources, acc.2.Served named done b.client) :
    ∀ b ∈ acc'.1.ressources, acc'.2.Served named
      (fun url => done url ∨ url = path.1 ∧ ∃ item, readPath path = .ok (some item)) b.client := by
  rcases createRessource_links h with ⟨hpath, rfl⟩ | ⟨t, new, item, service, ht, hdesc, rfl⟩
  · intro b hb
    refine ⟨(hacc b hb).knows, ?_⟩
    rintro (hdone | ⟨-, item, hitem⟩)
    · exact (hacc b hb).heals hdone
    · rw [hpath] at hitem
      cases hitem
  · have hw : acc.2.Within (t.link new.isService new.hostId new.resId) :=
      ht.trans (link_within t _ _ _)
    have hdesc' := hdesc.within (link_within t new.isService new.hostId new.resId)
    have hnames := hnamed item service hdesc.reads hdesc.readsService
    apply forall_addRessource
    · exact fun c definition hc => ⟨hc.knows.updateDefs definition, hc.heals⟩
    · exact fun c hc => ⟨hc.knows.init db, hc.heals⟩
    · intro b hb
      have hserved := (hacc b hb).within hw
      refine ⟨hserved.knows, ?_⟩
      rintro (hdone | ⟨hurl, -⟩) hkeeps
      · exact hserved.heals hdone hkeeps
      · obtain ⟨hkind, howner, hres⟩ := hdesc'.ids_eq hnames hserved.knows hurl hkeeps
        have hstores := hdesc.stores
        unfold Stores at hstores ⊢
        rwa [hkind, howner, hres]
    · exact ⟨hdesc'.knows hnames, fun _ _ => hdesc.stores⟩

/-- The loop over the paths. -/
theorem createRessources_served {paths : List (String × Json)}
    (h : paths.foldlM (createRessource (store col) db) acc = .ok acc')
    (hnamed : ∀ path ∈ paths, ∀ item service, readPath path = .ok (some item) →
      readService path.2 = .ok service → named path.1 = (item.host, service))
    (hacc : ∀ b ∈ acc.1.ressources, acc.2.Served named done b.client) :
    ∀ b ∈ acc'.1.ressources, acc'.2.Served named
      (fun url => done url ∨ ∃ path ∈ paths, url = path.1 ∧ ∃ item, readPath path = .ok (some item))
      b.client := by
  induction paths generalizing acc done with
  | nil =>
      cases h
      intro b hb
      refine ⟨(hacc b hb).knows, ?_⟩
      rintro (hdone | ⟨path, hpath, -⟩)
      · exact (hacc b hb).heals hdone
      · cases hpath
  | cons path paths ih =>
      obtain ⟨m, hstep, hrest⟩ := foldlM_cons_eq_ok.mp h
      have hm := createRessource_served hstep (hnamed path List.mem_cons_self) hacc
      intro b hb
      have hserved := ih hrest (fun path hpath => hnamed path (List.mem_cons_of_mem _ hpath)) hm b hb
      refine ⟨hserved.knows, fun hdone => hserved.heals ?_⟩
      rcases hdone with hdone | ⟨path', hpath', hread⟩
      · exact Or.inl (Or.inl hdone)
      · rcases List.mem_cons.mp hpath' with rfl | hpath'
        · exact Or.inl (Or.inr hread)
        · exact Or.inr ⟨path', hpath', hread⟩

theorem createRessources_within {paths : List (String × Json)}
    (h : paths.foldlM (createRessource (store col) db) acc = .ok acc') : acc.2.Within acc'.2 := by
  apply foldlM_invariant (fun m : AgentApi × LinkTables col => acc.2.Within m.2) _ (.refl _) h
  intro m m' path _ hm hstep
  exact hm.trans (createRessource_within hstep)

end path

/-! ### One update -/

namespace LinkTables

variable {t t' : LinkTables col}

theorem tablesKeep_within (t : LinkTables col) : (store col).TablesKeep t.Within where
  grab _ h := h
  haveTable _ _ h := h
  createTable _ _ h := ⟨⟨h.later.ressources, h.later.hosts, h.later.services⟩, h.ressources, h.hosts,
    h.services, h.links⟩
  tableHasColumn _ _ _ h := h
  addColumn _ _ _ h := ⟨⟨h.later.ressources, h.later.hosts, h.later.services⟩, h.ressources, h.hosts,
    h.services, h.links⟩

theorem createTables_within {a : AgentApi} (h : createTables (store col) a t = .ok t') :
    t.Within t' := createTables_keeps (tablesKeep_within t) (.refl t) h

end LinkTables

namespace LinkedAgents

open LinkTables

variable {f f' f'' : LinkedAgents col} {call : UpdateCall} {db : Database} {doc : ApiDocument}
  {agent : ℕ} {named : String → String × Option String}

/-- An update on a document: the loop over the paths, the tables, and the clients of the paths. -/
theorem update_document (h : f.update ⟨agent, db, .document doc⟩ = .ok f') :
    ∃ a t, doc.paths.foldlM (createRessource (store col) db)
        ((f.agents agent).read doc.value, f.tables) = .ok (a, t) ∧
      t.Within f'.tables ∧ (∀ id, id ≠ agent → f'.agents id = f.agents id) ∧
      ∀ b ∈ (f'.agents agent).ressources, b ∈ a.ressources := by
  obtain ⟨⟨a', t'⟩, hupdate, h⟩ := bind_eq_ok.mp h
  cases h
  obtain ⟨a, t, hloop, htables, hclients⟩ := updateApi_loop (fun _ => rfl) hupdate
  refine ⟨a, t, hloop, createTables_within htables, fun id hid => Function.update_of_ne hid _ _, ?_⟩
  dsimp only
  rw [Function.update_self]
  exact hclients

/-- An update without a document keeps the tables and the clients. -/
theorem update_other (h : f.update call = .ok f') (hnot : ∀ doc, call.reply ≠ .document doc) :
    f'.tables = f.tables ∧ ∀ id, (f'.agents id).ressources = (f.agents id).ressources := by
  obtain ⟨⟨a', t'⟩, hupdate, h⟩ := bind_eq_ok.mp h
  cases h
  rcases updateApi_other hupdate with ⟨doc, hdoc⟩ | ⟨-, hclients, rfl⟩
  · exact absurd hdoc (hnot doc)
  · refine ⟨rfl, fun id => ?_⟩
    by_cases hid : id = call.agent
    · subst hid
      dsimp only
      rw [Function.update_self, hclients]
    · dsimp only
      rw [Function.update_of_ne hid]

theorem update_within (h : f.update call = .ok f') : f.tables.Within f'.tables := by
  by_cases hdoc : ∃ doc, call.reply = .document doc
  · obtain ⟨doc, hdoc⟩ := hdoc
    obtain ⟨agent, db, reply⟩ := call
    cases hdoc
    obtain ⟨a, t, hloop, hwithin, -, -⟩ := update_document h
    exact (createRessources_within hloop).trans hwithin
  · rw [(update_other h fun doc heq => hdoc ⟨doc, heq⟩).1]

theorem step_later {s : LinkStep} (h : f.step s = .ok f') : f.tables.Later f'.tables := by
  cases s with
  | update call => exact (update_within h).later
  | delete d =>
      cases h
      exact delete_later f.tables d
  | restart agent =>
      cases h
      exact .refl _

theorem run_later {steps : List LinkStep} (h : f.run steps = .ok f') :
    f.tables.Later f'.tables := by
  apply foldlM_invariant (fun m : LinkedAgents col => f.tables.Later m.tables) _ (.refl _) h
  intro m m' s _ hm hstep
  exact hm.trans (step_later hstep)

/-- An update by a document that names the owners as before. -/
theorem update_served (h : f.update ⟨agent, db, .document doc⟩ = .ok f') (hdoc : doc.Names named)
    (hf : ∀ b ∈ (f.agents agent).ressources, f.tables.Knows named b.client) :
    ∀ b ∈ (f'.agents agent).ressources, f'.tables.Served named
      (fun url => ∃ path ∈ doc.paths, url = path.1 ∧ ∃ item, readPath path = .ok (some item))
      b.client := by
  obtain ⟨a, t, hloop, hwithin, -, hclients⟩ := update_document h
  have hstart : ∀ b ∈ ((f.agents agent).read doc.value).ressources,
      f.tables.Served named (fun _ => False) b.client :=
    fun b hb => ⟨hf b hb, fun hfalse => hfalse.elim⟩
  intro b hb
  have hserved := (createRessources_served hloop hdoc hstart b (hclients b hb)).within hwithin
  exact ⟨hserved.knows, fun hpath => hserved.heals (Or.inr hpath)⟩

/-! ### Runs -/

/-- The tables know the clients of the agent. -/
def KnowsAgent (f : LinkedAgents col) (named : String → String × Option String) (agent : ℕ) : Prop :=
  ∀ b ∈ (f.agents agent).ressources, f.tables.Knows named b.client

/-- The documents of the agent give each path one host, and one service or none. -/
def Names (steps : List LinkStep) (agent : ℕ) (named : String → String × Option String) : Prop :=
  ∀ db doc, .update ⟨agent, db, .document doc⟩ ∈ steps → doc.Names named

theorem KnowsAgent.step {s : LinkStep} (hf : f.KnowsAgent named agent) (h : f.step s = .ok f')
    (hdocs : ∀ db doc, s = .update ⟨agent, db, .document doc⟩ → doc.Names named) :
    f'.KnowsAgent named agent := by
  have hlater := step_later h
  have hold : ∀ b ∈ (f.agents agent).ressources, f'.tables.Knows named b.client :=
    fun b hb => (hf b hb).later hlater
  cases s with
  | update call =>
      by_cases hdoc : ∃ doc, call.reply = .document doc
      · obtain ⟨doc, hdoc⟩ := hdoc
        obtain ⟨id, db, reply⟩ := call
        cases hdoc
        by_cases hid : id = agent
        · subst hid
          exact fun b hb => (update_served h (hdocs db doc rfl) hf b hb).knows
        · obtain ⟨a, t, -, -, hothers, -⟩ := update_document h
          intro b hb
          rw [hothers agent (Ne.symm hid)] at hb
          exact hold b hb
      · have hclients := (update_other h fun doc heq => hdoc ⟨doc, heq⟩).2 agent
        intro b hb
        rw [hclients] at hb
        exact hold b hb
  | delete d =>
      cases h
      exact hold
  | restart id =>
      cases h
      intro b hb
      dsimp only at hb
      by_cases hid : agent = id
      · subst hid
        rw [Function.update_self] at hb
        cases hb
      · rw [Function.update_of_ne hid] at hb
        exact hf b hb

theorem knowsAgent_run {t : LinkTables col} {steps : List LinkStep}
    (h : (LinkedAgents.start t).run steps = .ok f) (hdocs : Names steps agent named) :
    f.KnowsAgent named agent := by
  apply foldlM_invariant (fun m : LinkedAgents col => m.KnowsAgent named agent) _ _ h
  · intro m m' s hs hm hstep
    exact hm.step hstep fun db doc heq => hdocs db doc (heq ▸ hs)
  · intro b hb
    cases hb

end LinkedAgents

/-- After an update of its agent a client of a path of the document can store samples if and only
if its host or service and its resource are those that it was made for, whatever was deleted before;
if one of them was deleted, the client never stores a sample again. The documents of the agent give
each path one host, and one service or none. -/
theorem stored_iff_kept (t : LinkTables col) (steps : List LinkStep) (agent : ℕ)
    (named : String → String × Option String) (hdocs : LinkedAgents.Names steps agent named)
    (f : LinkedAgents col) (hrun : (LinkedAgents.start t).run steps = .ok f) (db : Database)
    (doc : ApiDocument) (hdoc : doc.Names named) (f' : LinkedAgents col)
    (hupdate : f.update ⟨agent, db, .document doc⟩ = .ok f') (b : BoundClient)
    (hb : b ∈ (f'.agents agent).ressources) (path : String × Json) (hpath : path ∈ doc.paths)
    (hurl : b.baseurl = path.1) (item : PathItem) (hitem : readPath path = .ok (some item)) :
    (f'.tables.Stores b.client ↔ f'.tables.Keeps b.client) ∧
      (¬ f'.tables.Keeps b.client →
        ∀ later f'', f'.run later = .ok f'' → ¬ f''.tables.Stores b.client) := by
  have hserved := LinkedAgents.update_served hupdate hdoc
    (LinkedAgents.knowsAgent_run hrun hdocs) b hb
  constructor
  · constructor
    · exact fun hstores => hstores.keeps
    · exact hserved.heals ⟨path, hpath, hurl, item, hitem⟩
  · intro hgone later f'' hlater hstores
    exact hgone (hstores.keeps.earlier hserved.knows (LinkedAgents.run_later hlater))

/-- The host of the disk is deleted. -/
def deletedHost : List LinkStep :=
  [.update ⟨0, emptyDatabase, .document (diskDoc "disk")⟩, .delete (.host 1)]

theorem disk_names : (diskDoc "disk").Names fun _ => ("web", none) := by
  intro path hpath item service hitem hservice
  cases List.mem_singleton.mp hpath
  have hdisk : item = ⟨"host", "disk", "disk", "web"⟩ :=
    Option.some.inj (Except.ok.inj (hitem.symm.trans disk_reads))
  have hhost : service = none := Except.ok.inj (hservice.symm.trans rfl)
  rw [hdisk, hhost]

/-- The client of the disk never stores a sample again. -/
theorem stored_iff_kept_deletedHost :
    ∃ f, (LinkedAgents.start (.empty .binary)).run deletedHost = .ok f ∧
      ∃ f', f.update ⟨0, emptyDatabase, .document (diskDoc "disk")⟩ = .ok f' ∧
        ∃ b ∈ (f'.agents 0).ressources, ∀ later f'', f'.run later = .ok f'' →
          ¬ f''.tables.Stores b.client := by
  have heval : (((LinkedAgents.start (.empty .binary)).run deletedHost).bind fun f =>
      (f.update ⟨0, emptyDatabase, .document (diskDoc "disk")⟩).map fun f' =>
        ((f'.agents 0).ressources.map fun b => (b.baseurl, b.client.isService, b.client.hostId),
          f'.tables.hosts.numbers)).toOption =
      some ([("/system/disk/history", false, 1)], [2]) := by
    decide +kernel
  obtain ⟨f, hf, heval⟩ := bind_eq_ok.mp (eq_ok_of_toOption heval)
  obtain ⟨f', hf', heq⟩ := map_eq_ok.mp heval
  obtain ⟨hclients, hnumbers⟩ := Prod.mk.inj heq
  obtain ⟨b, hb, hclient⟩ := List.mem_map.mp (hclients ▸ List.mem_singleton_self _)
  obtain ⟨hurl, hclient⟩ := Prod.mk.inj hclient
  obtain ⟨hkind, howner⟩ := Prod.mk.inj hclient
  refine ⟨f, hf, f', hf', b, hb, ?_⟩
  have hdocs : LinkedAgents.Names deletedHost 0 fun _ => ("web", none) := by
    intro db doc hdoc
    rcases List.mem_cons.mp hdoc with heq | hrest
    · cases heq
      exact disk_names
    · cases List.mem_singleton.mp hrest
  have hpath : ("/system/disk/history", getterPath "#/definitions/disk" [("x-host", .str "web")]) ∈
      (diskDoc "disk").paths := List.mem_singleton_self _
  apply (stored_iff_kept (.empty .binary) deletedHost 0 (fun _ => ("web", none)) hdocs f hf
    emptyDatabase (diskDoc "disk") disk_names f' hf' b hb _ hpath hurl _ disk_reads).2
  intro hkeeps
  have hmem := hkeeps.1
  rw [hkind, howner, LinkTables.owners, if_neg (by simp), hnumbers] at hmem
  cases List.mem_singleton.mp hmem

/-! ### Without deletions -/

namespace LinkedAgents

open LinkTables

variable {f f' : LinkedAgents col}

/-- Every client has its link. -/
def AllStore (f : LinkedAgents col) : Prop :=
  ∀ id, ∀ b ∈ (f.agents id).ressources, f.tables.Stores b.client

/-- The loop makes clients that have their links. -/
theorem createRessources_stores {db : Database} {paths : List (String × Json)}
    {acc acc' : AgentApi × LinkTables col}
    (h : paths.foldlM (createRessource (store col) db) acc = .ok acc')
    (hacc : ∀ b ∈ acc.1.ressources, acc.2.Stores b.client) :
    ∀ b ∈ acc'.1.ressources, acc'.2.Stores b.client := by
  apply foldlM_invariant (fun m : AgentApi × LinkTables col =>
    ∀ b ∈ m.1.ressources, m.2.Stores b.client) _ hacc h
  intro m m' path _ hm hstep
  have hwithin := createRessource_within hstep
  rcases createRessource_links hstep with ⟨-, rfl⟩ | ⟨t, new, item, service, -, hdesc, rfl⟩
  · exact hm
  · apply forall_addRessource
    · exact fun c definition hc => hc
    · exact fun c hc => hc
    · exact fun b hb => (hm b hb).within hwithin
    · exact hdesc.stores

theorem AllStore.update {call : UpdateCall} (hf : f.AllStore) (h : f.update call = .ok f') :
    f'.AllStore := by
  have hwithin := update_within h
  by_cases hdoc : ∃ doc, call.reply = .document doc
  · obtain ⟨doc, hdoc⟩ := hdoc
    obtain ⟨agent, db, reply⟩ := call
    cases hdoc
    obtain ⟨a, t, hloop, hw, hothers, hclients⟩ := update_document h
    intro id b hb
    by_cases hid : id = agent
    · subst hid
      exact (createRessources_stores hloop (hf id) b (hclients b hb)).within hw
    · rw [hothers id hid] at hb
      exact (hf id b hb).within hwithin
  · obtain ⟨htables, hclients⟩ := update_other h fun doc heq => hdoc ⟨doc, heq⟩
    intro id b hb
    rw [hclients] at hb
    rw [htables]
    exact hf id b hb

end LinkedAgents

/-- As long as nothing is deleted no sample or event of any client is refused for its host, service
or resource, whatever hosts and services the documents give the paths; so it is after a start on any
tables, and once every backend was restarted. -/
theorem stored_without_deletions (f : LinkedAgents col) (hf : f.AllStore) (steps : List LinkStep)
    (hsteps : ∀ d, .delete d ∉ steps) (f' : LinkedAgents col) (hrun : f.run steps = .ok f') :
    f'.AllStore := by
  apply foldlM_invariant LinkedAgents.AllStore _ hf hrun
  intro m m' s hs hm hstep
  cases s with
  | update call => exact hm.update hstep
  | delete d => exact absurd hs (hsteps d)
  | restart agent =>
      cases hstep
      intro id b hb
      dsimp only at hb
      by_cases hid : id = agent
      · subst hid
        rw [Function.update_self] at hb
        cases hb
      · rw [Function.update_of_ne hid] at hb
        exact hm id b hb

/-- The disk under another host. -/
def movedDisk : ApiDocument where
  value := apiValue
    [("/system/disk/history", getterPath "#/definitions/disk" [("x-host", .str "db")])]
    [("disk", oneProperty "pctfree" "number")]
  distinct := by simp [apiValue, Json.entriesAt, Json.member, Json.entries, List.lookup]
  distinctDefinitions := by
    simp [apiValue, Json.entriesAt, Json.member, Json.entries, List.lookup]

/-- The disk has a client, which stays with the first host when a document names a second one. -/
theorem stored_without_deletions_disk :
    ∃ f f', (LinkedAgents.start (.empty .binary)).run
        [.update ⟨0, emptyDatabase, .document (diskDoc "disk")⟩] = .ok f ∧
      f.run [.update ⟨0, emptyDatabase, .document movedDisk⟩] = .ok f' ∧
      ((f'.agents 0).ressources.map fun b => (b.baseurl, b.client.hostId)) =
        [("/system/disk/history", 1)] ∧
      f'.tables.hRessources = [(1, 1), (2, 1)] ∧ f.AllStore ∧ f'.AllStore := by
  have heval : (((LinkedAgents.start (.empty .binary)).run
      [.update ⟨0, emptyDatabase, .document (diskDoc "disk")⟩]).bind fun f =>
        (f.run [.update ⟨0, emptyDatabase, .document movedDisk⟩]).map fun f' =>
          ((f'.agents 0).ressources.map fun b => (b.baseurl, b.client.hostId),
            f'.tables.hRessources)).toOption =
      some ([("/system/disk/history", 1)], [(1, 1), (2, 1)]) := by
    decide +kernel
  obtain ⟨f, hf, heval⟩ := bind_eq_ok.mp (eq_ok_of_toOption heval)
  obtain ⟨f', hf', heq⟩ := map_eq_ok.mp heval
  obtain ⟨hclients, hlinks⟩ := Prod.mk.inj heq
  have hstored : f.AllStore := by
    apply stored_without_deletions (.start (.empty .binary)) _ _ _ f hf
    · intro id b hb
      cases hb
    · intro d hd
      cases List.mem_singleton.mp hd
  refine ⟨f, f', hf, hf', hclients, hlinks, hstored, stored_without_deletions f hstored _ ?_ f' hf'⟩
  intro d hd
  cases List.mem_singleton.mp hd

end WatchedBack
