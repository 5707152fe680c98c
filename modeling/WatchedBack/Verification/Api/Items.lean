import WatchedBack.Library.Joins
import WatchedBack.Model.Items
import WatchedBack.Verification.Api.Catalog

/-! # Rules that are applied and rules that are shown

A client applies the rules of the table that its path has, and the view shows those of the data
type that its resource got when it was registered first, if their event types exist. -/

namespace WatchedBack

open Fallible Joins

variable {col : Collation}

/-! ### The two queries -/

theorem applies_eq_concerns (c : RessourceClient) (row : FactoryRow) :
    c.applies row = (row.concerns c.hostId c.resId && row.isFor .binary c.table) := by
  have htype : (decide (row.resType = some c.table ∨ row.resType = none)) =
      row.isFor .binary c.table := by
    unfold FactoryRow.isFor FactoryRow.names
    cases row.resType <;> simp [Collation.binary]
  rw [← htype, Bool.eq_iff_iff]
  simp only [RessourceClient.applies, FactoryRow.concerns, Bool.and_eq_true, decide_eq_true_eq,
    and_assoc]

/-- `init` is the query of a server that tells names apart to the byte. -/
theorem eventFactory_init (c : RessourceClient) (db : Database) :
    (c.init db).eventFactory = c.eventFactory ++ c.factoryRules .binary db := by
  have hinit : (c.init db).eventFactory = c.eventFactory ++
      ((db.eventFactory c.isService).filter (c.updateDefs c.definition).applies).map
        FactoryRow.event := rfl
  rw [hinit, funext (applies_eq_concerns _)]
  rfl

namespace Registry

variable {reg : Registry} {db : Database} {eventTypes : EventTypes} {r : RessourceRow}
  {hostId resId : ℕ}

/-- A rule is joined with its event type, if that exists. -/
theorem join_eventTypes (eventTypes : EventTypes) (r : RessourceRow) (ar : ℕ × ℕ) (ef : FactoryRow) :
    ((eventTypes.rows.filter fun et => et.id = ef.eventType).map (.join r ar ef)).map
        MonitoringItem.rule =
      if decide (ef.eventType ∈ eventTypes.rows.map NameRow.id) = true then [ef.event] else [] := by
  rcases filter_key eventTypes.keyed ef.eventType with ⟨hnil, hnot⟩ | ⟨et, hsingle, hin⟩
  · rw [hnil, if_neg (by simpa using hnot)]
    rfl
  · rw [hsingle, if_pos (decide_eq_true hin)]
    rfl

/-- The view of one resource is a selection of the rules. -/
theorem shownRules_eq (hkeyed : reg.Keyed) (hr : r ∈ reg.catalog.ressources)
    (hlink : (hostId, r.id) ∈ reg.hRessources) :
    reg.shownRules col db eventTypes hostId r.id =
      (db.hEventFactory.filter fun ef => ef.concerns hostId r.id && ef.isFor col r.dataType &&
        decide (ef.eventType ∈ eventTypes.rows.map NameRow.id)).map FactoryRow.event := by
  unfold Registry.shownRules Registry.monitoringItems
  rw [List.filter_flatMap, flatMap_eq_of_unique hkeyed.ids.of_map hr,
    List.filter_flatMap, flatMap_eq_of_unique (hkeyed.links.filter _) (x := (hostId, r.id)),
    List.filter_eq_self.mpr, List.map_flatMap]
  · rw [funext (join_eventTypes eventTypes r (hostId, r.id)), flatMap_ite, List.filter_filter]
    simp only [Bool.and_comm]
  · intro item hitem
    simp only [List.mem_flatMap, List.mem_map] at hitem
    obtain ⟨ef, -, et, -, rfl⟩ := hitem
    simp [MonitoringItem.join]
  · simp [hlink]
  · intro ar har hne
    rw [List.filter_eq_nil_iff]
    intro item hitem
    simp only [List.mem_flatMap, List.mem_map] at hitem
    obtain ⟨ef, -, et, -, rfl⟩ := hitem
    have hid := of_decide_eq_true (List.mem_filter.mp har).2
    intro heq
    have heq' := of_decide_eq_true heq
    exact hne (Prod.ext heq'.1 hid)
  · intro r' hr' hne
    rw [List.filter_eq_nil_iff]
    intro item hitem
    simp only [List.mem_flatMap, List.mem_map, List.mem_filter] at hitem
    obtain ⟨ar, ⟨-, hid⟩, ef, -, et, -, rfl⟩ := hitem
    intro heq
    have heq' := of_decide_eq_true heq
    have hsame : r'.id = r.id := (of_decide_eq_true hid).symm.trans heq'.2
    exact hne (List.inj_on_of_nodup_map hkeyed.ids hr' hr hsame)

end Registry

/-! ### Registrations -/

/-- A client of a host, whose resource is registered for the host. -/
def Registry.Linked (reg : Registry) (c : RessourceClient) : Prop :=
  c.isService = false → (c.hostId, c.resId) ∈ reg.hRessources ∧
    c.resId ∈ reg.catalog.ressources.map RessourceRow.id

/-- Rows are only added. -/
structure Registry.Within (reg reg' : Registry) : Prop where
  links : ∀ l ∈ reg.hRessources, l ∈ reg'.hRessources
  ids : ∀ id ∈ reg.catalog.ressources.map RessourceRow.id,
    id ∈ reg'.catalog.ressources.map RessourceRow.id

section registrations

variable {reg reg' reg'' : Registry} {db : Database} {c c' : Catalog} {api : Json}
  {path : String × Json} {new : Option RessourceClient} {b : RessourceClient}
  {acc acc' : AgentApi × Registry} {hostId resId : ℕ}

theorem Registry.Within.refl (reg : Registry) : reg.Within reg := ⟨fun _ h => h, fun _ h => h⟩

theorem Registry.Within.trans (h : reg.Within reg') (h' : reg'.Within reg'') : reg.Within reg'' :=
  ⟨fun l hl => h'.links l (h.links l hl), fun id hid => h'.ids id (h.ids id hid)⟩

theorem Registry.Linked.within (h : reg.Linked b) (hw : reg.Within reg') : reg'.Linked b := by
  intro hhost
  obtain ⟨hlink, hid⟩ := h hhost
  exact ⟨hw.links _ hlink, hw.ids _ hid⟩

/-- A described resource gets an id of its own. -/
theorem Description.ids (h : Description (Catalog.store col) api path c new c')
    (hids : (c.ressources.map RessourceRow.id).Nodup) :
    (c'.ressources.map RessourceRow.id).Nodup := by
  cases h with
  | other hpath => exact hids
  | unknown item hpath hid => exact absurd hid (Catalog.lookupRessource_spec col item c).2.2
  | client item service definition hpath hid hservice hdef =>
      have hrows : ((Catalog.store col).link service.isSome
          (ownerAnswer (Catalog.store col) item service c).1
          (lookupRessource (Catalog.store col) item c).1
          (ownerAnswer (Catalog.store col) item service c).2).ressources =
            (lookupRessource (Catalog.store col) item c).2.ressources := by
        cases service <;> rfl
      rw [hrows, Catalog.lookupRessource_store]
      split
      · exact hids
      · rw [Catalog.insertRessource, List.map_append, List.map_singleton, List.nodup_append]
        refine ⟨hids, List.nodup_singleton _, ?_⟩
        intro a ha id hid heq
        rw [heq, List.mem_singleton.mp hid] at ha
        exact nextId_notMem _ ha

theorem Description.resId_mem (h : Description (Catalog.store col) api path c (some b) c') :
    b.resId ∈ c'.ressources.map RessourceRow.id := by
  obtain ⟨origin, name, -, hid⟩ := h.known.ressource
  obtain ⟨row, hrow, heq⟩ := Option.map_eq_some_iff.mp hid
  rw [← heq]
  exact List.mem_map_of_mem (List.mem_of_find?_eq_some hrow)

theorem Registry.link_spec (hkeyed : reg.Keyed) (hostId resId : ℕ) :
    (reg.link hostId resId).Keyed ∧ reg.Within (reg.link hostId resId) ∧
      (hostId, resId) ∈ (reg.link hostId resId).hRessources := by
  unfold Registry.link
  split
  · next hin => exact ⟨hkeyed, .refl reg, hin⟩
  · next hnot =>
    refine ⟨⟨hkeyed.ids, ?_⟩, ⟨fun l hl => List.mem_append_left _ hl, fun _ h => h⟩, by simp⟩
    rw [List.nodup_append]
    refine ⟨hkeyed.links, List.nodup_singleton _, ?_⟩
    intro a ha l hl heq
    rw [heq, List.mem_singleton.mp hl] at ha
    exact hnot ha

/-- The clients of an agent after a new one was described. -/
theorem linked_addRessource {a : AgentApi} (h : ∀ b ∈ a.ressources, reg.Linked b.client)
    (hnew : reg.Linked b) : ∀ d ∈ (addRessource db a b).ressources, reg.Linked d.client := by
  intro d hd
  unfold addRessource at hd
  dsimp only at hd
  split at hd
  · obtain ⟨old, hold, rfl⟩ := List.mem_map.mp hd
    split
    · exact h old hold
    · exact h old hold
  · rcases List.mem_append.mp hd with hold | hfresh
    · exact h d hold
    · rw [List.mem_singleton.mp hfresh]
      exact hnew

/-- The clients of all agents after those of one have changed. -/
theorem linked_update {agents : ℕ → AgentApi} {agent : ℕ} {a : AgentApi}
    (h : ∀ id, ∀ b ∈ (agents id).ressources, reg.Linked b.client)
    (ha : ∀ b ∈ a.ressources, reg.Linked b.client) :
    ∀ id, ∀ b ∈ (Function.update agents agent a id).ressources, reg.Linked b.client := by
  intro id b hb
  by_cases hid : id = agent
  · subst hid
    rw [Function.update_self] at hb
    exact ha b hb
  · rw [Function.update_of_ne hid] at hb
    exact h id b hb

/-! ### Without the rows of `h$ressources` -/

theorem link_catalog (reg : Registry) (hostId resId : ℕ) :
    (reg.link hostId resId).catalog = reg.catalog := by
  unfold Registry.link
  split <;> rfl

theorem registry_projects (col : Collation) :
    (Registry.store col).Projects (Catalog.store col) Registry.catalog where
  grab _ := rfl
  haveRessource _ _ _ := rfl
  insertRessource _ _ _ _ := rfl
  getRessourceId _ _ _ := rfl
  getHost _ _ := rfl
  getService _ _ _ := rfl
  link isService ownerId resId reg := by
    cases isService with
    | true => rfl
    | false => exact link_catalog reg ownerId resId
  haveTable _ _ := rfl
  createTable _ _ := rfl
  tableHasColumn _ _ _ := rfl
  addColumn _ _ _ := rfl

/-- The agents and the other tables are those of the updates. -/
theorem Registrations.update_fleet (f : Registrations) (call : UpdateCall) :
    (f.update col call).map Registrations.fleet = f.fleet.update col call := by
  unfold Registrations.update Fleet.update
  dsimp only [Registrations.fleet]
  rw [← updateApi_projects (registry_projects col)]
  cases updateApi (Registry.store col) call.db call.reply (f.agents call.agent) f.registry <;> rfl

theorem Registrations.run_fleet (f : Registrations) (calls : List UpdateCall) :
    (f.run col calls).map Registrations.fleet = f.fleet.run col calls :=
  map_foldlM Registrations.fleet Registrations.update_fleet calls f

/-! ### One path -/

theorem ownerAnswer_hRessources (item : PathItem) (service : Option String) :
    (ownerAnswer (Registry.store col) item service reg).2.hRessources = reg.hRessources := by
  have hlookup : (lookupRessource (Registry.store col) item reg).2.hRessources = reg.hRessources := by
    unfold lookupRessource Registry.store
    dsimp only
    split <;> rfl
  rw [← hlookup]
  cases service <;> rfl

/-- Before the link of a described client the rows are the old ones. -/
theorem Description.links (h : Description (Registry.store col) api path reg new reg') :
    ∃ before : Registry, before.hRessources = reg.hRessources ∧
      reg' = new.elim before fun b =>
        (Registry.store col).link b.isService b.hostId b.resId before := by
  cases h with
  | other hpath => exact ⟨reg, rfl, rfl⟩
  | unknown item hpath hid => exact ⟨_, ownerAnswer_hRessources item none, rfl⟩
  | client item service definition hpath hid hservice hdef =>
      exact ⟨_, ownerAnswer_hRessources item service, rfl⟩

/-- The definitions concern none of the rows. -/
theorem createTables_registry {a : AgentApi} (h : createTables (Registry.store col) a reg = .ok reg')
    (hkeyed : reg.Keyed) : reg.Within reg' ∧ reg'.Keyed := by
  have hkeep : (Registry.store col).TablesKeep fun m =>
      m.hRessources = reg.hRessources ∧ m.catalog.ressources = reg.catalog.ressources :=
    ⟨fun _ h => h, fun _ _ h => h, fun _ _ h => h, fun _ _ _ h => h, fun _ _ _ h => h⟩
  obtain ⟨hlinks, hrows⟩ := createTables_keeps hkeep ⟨rfl, rfl⟩ h
  constructor
  · exact ⟨fun l hl => hlinks ▸ hl, fun id hid => hrows ▸ hid⟩
  · exact ⟨hrows ▸ hkeyed.ids, hlinks ▸ hkeyed.links⟩

/-- What one path keeps. -/
theorem createRessource_keeps (h : createRessource (Registry.store col) db acc path = .ok acc')
    (hkeyed : acc.2.Keyed) (hlinked : ∀ b ∈ acc.1.ressources, acc.2.Linked b.client) :
    acc'.2.Keyed ∧ acc.2.Within acc'.2 ∧ ∀ b ∈ acc'.1.ressources, acc'.2.Linked b.client := by
  obtain ⟨⟨new, reg⟩, hdescribe, h⟩ := bind_eq_ok.mp h
  have hcatalog : describe (Catalog.store col) acc.1.api path acc.2.catalog =
      .ok (new, reg.catalog) := by
    rw [← describe_projects (registry_projects col), hdescribe]
    rfl
  have hdescription := describe_description hcatalog
  obtain ⟨before, hrows, hreg⟩ := (describe_description hdescribe).links
  have hids := hdescription.extends.ressources
  cases new with
  | none =>
      cases h
      cases hreg
      have hwithin : acc.2.Within before :=
        ⟨fun l hl => hrows ▸ hl, fun _ hid => hids.map_mem hid⟩
      exact ⟨⟨hdescription.ids hkeyed.ids, hrows ▸ hkeyed.links⟩, hwithin,
        fun b hb => (hlinked b hb).within hwithin⟩
  | some new =>
      cases h
      have hnew := hdescription.resId_mem
      have hunique := hdescription.ids hkeyed.ids
      rw [hreg] at hids hnew hunique ⊢
      cases hservice : new.isService with
      | true =>
          simp only [Option.elim, hservice] at hids hnew hunique ⊢
          have hwithin : acc.2.Within before :=
            ⟨fun l hl => hrows ▸ hl, fun _ hid => hids.map_mem hid⟩
          refine ⟨⟨hunique, hrows ▸ hkeyed.links⟩, hwithin, linked_addRessource ?_ ?_⟩
          · exact fun b hb => (hlinked b hb).within hwithin
          · intro hhost
            rw [hservice] at hhost
            cases hhost
      | false =>
          simp only [Option.elim, hservice] at hids hnew hunique ⊢
          have hlink : (Registry.store col).link false new.hostId new.resId before =
              before.link new.hostId new.resId := rfl
          rw [hlink] at hids hnew hunique ⊢
          rw [link_catalog] at hids hunique
          have hwithin : acc.2.Within before :=
            ⟨fun l hl => hrows ▸ hl, fun _ hid => hids.map_mem hid⟩
          obtain ⟨hkeyed', hwithin', hmem⟩ :=
            Registry.link_spec ⟨hunique, hrows ▸ hkeyed.links⟩ new.hostId new.resId
          refine ⟨hkeyed', hwithin.trans hwithin', linked_addRessource ?_ ?_⟩
          · exact fun b hb => ((hlinked b hb).within hwithin).within hwithin'
          · exact fun _ => ⟨hmem, hnew⟩

end registrations

/-! ### Runs -/

namespace Registrations

/-- The clients of all agents have their rows. -/
structure Sound (f : Registrations) : Prop where
  keyed : f.registry.Keyed
  linked : ∀ id, ∀ b ∈ (f.agents id).ressources, f.registry.Linked b.client

variable {f f' : Registrations} {call : UpdateCall} {calls : List UpdateCall}

theorem Sound.update (hf : f.Sound) (h : f.update col call = .ok f') : f'.Sound := by
  obtain ⟨⟨a, reg⟩, hupdate, h⟩ := bind_eq_ok.mp h
  cases h
  rcases updateApi_other hupdate with ⟨doc, hdoc⟩ | ⟨-, hclients, rfl⟩
  · rw [hdoc] at hupdate
    obtain ⟨a₁, reg₁, hloop, htables, hclients⟩ := updateApi_loop (fun _ => rfl) hupdate
    have hloop' : reg₁.Keyed ∧ f.registry.Within reg₁ ∧
        ∀ b ∈ a₁.ressources, reg₁.Linked b.client := by
      apply foldlM_invariant (P := fun acc : AgentApi × Registry => acc.2.Keyed ∧
        f.registry.Within acc.2 ∧ ∀ b ∈ acc.1.ressources, acc.2.Linked b.client) _ _ hloop
      · intro acc acc' path _ hacc hpath
        obtain ⟨hkeyed, hwithin, hlinked⟩ := createRessource_keeps hpath hacc.1 hacc.2.2
        exact ⟨hkeyed, hacc.2.1.trans hwithin, hlinked⟩
      · exact ⟨hf.keyed, .refl _, hf.linked call.agent⟩
    obtain ⟨hkeyed, hwithin, hlinked⟩ := hloop'
    obtain ⟨htabled, hkeyed'⟩ := createTables_registry htables hkeyed
    refine ⟨hkeyed', linked_update ?_ ?_⟩
    · exact fun id b hb => (hf.linked id b hb).within (hwithin.trans htabled)
    · exact fun b hb => (hlinked b (hclients b hb)).within htabled
  · -- the agent keeps its clients
    exact ⟨hf.keyed, linked_update hf.linked (hclients ▸ hf.linked call.agent)⟩

/-- In every run the clients have their rows. -/
theorem sound_run (reg : Registry) (hkeyed : reg.Keyed)
    (h : (Registrations.start reg).run col calls = .ok f) : f.Sound := by
  apply foldlM_invariant Sound _ _ h
  · intro f f' call _ hf hupdate
    exact hf.update hupdate
  · constructor
    · exact hkeyed
    · intro id b hb
      cases hb

end Registrations

/-! ### The rules of a client -/

/-- Every rule that the client applies is of an event type that exists, and of each rule the client
applies as many by its own table only as the view shows by the data type only. -/
structure RulesAgree (col : Collation) (c : RessourceClient) (dataType : String)
    (rules : List FactoryRow) (eventTypes : EventTypes) : Prop where
  known : ∀ ef ∈ rules, ef.concerns c.hostId c.resId = true → ef.isFor col c.table = true →
    ef.eventType ∈ eventTypes.rows.map NameRow.id
  named : ∀ e : ResEvent, e.eventType ∈ eventTypes.rows.map NameRow.id →
    (rules.countP fun ef => ef.event = e ∧ ef.concerns c.hostId c.resId = true ∧
        ef.names col c.table = true ∧ ef.names col dataType = false) =
      rules.countP fun ef => ef.event = e ∧ ef.concerns c.hostId c.resId = true ∧
        ef.names col dataType = true ∧ ef.names col c.table = false

theorem FactoryRow.isFor_only (ef : FactoryRow) (type other : String) :
    (ef.isFor col type = true ∧ ef.isFor col other = false) ↔
      (ef.names col type = true ∧ ef.names col other = false) := by
  unfold FactoryRow.isFor FactoryRow.names
  cases ef.resType <;> simp

/-- Among the rules of an event, one selection without the other is a matter of the names only. -/
theorem countP_names_only {applied shown : FactoryRow → Bool} {ownerId resId : ℕ}
    {type other : String} {e : ResEvent} (rules : List FactoryRow)
    (happlied : ∀ ef, ef.event = e → applied ef = (ef.concerns ownerId resId && ef.isFor col type))
    (hshown : ∀ ef, ef.event = e → shown ef = (ef.concerns ownerId resId && ef.isFor col other)) :
    (rules.countP fun ef => ef.event = e ∧ applied ef = true ∧ shown ef = false) =
      rules.countP fun ef => ef.event = e ∧ ef.concerns ownerId resId = true ∧
        ef.names col type = true ∧ ef.names col other = false := by
  apply List.countP_congr
  intro ef _
  simp only [decide_eq_true_eq]
  apply and_congr_right
  intro hevent
  rw [happlied ef hevent, hshown ef hevent, Bool.and_eq_true, Bool.and_eq_false_iff, and_assoc]
  apply and_congr_right
  intro hconcerns
  rw [hconcerns, ← ef.isFor_only]
  simp

/-- A selection that has no rule of an event leaves none of it over. -/
theorem countP_selected_eq_zero {selected other : FactoryRow → Bool} {e : ResEvent}
    {rules : List FactoryRow} (h : ∀ ef ∈ rules, ef.event = e → selected ef = false) :
    (rules.countP fun ef => ef.event = e ∧ selected ef = true ∧ other ef = false) = 0 := by
  rw [List.countP_eq_zero]
  intro ef hef hrow
  obtain ⟨hevent, hselected, -⟩ := of_decide_eq_true hrow
  rw [h ef hef hevent] at hselected
  cases hselected

/-- The two selections give the same rules exactly if the rules agree. -/
theorem perm_iff_rulesAgree (c : RessourceClient) (dataType : String) (rules : List FactoryRow)
    (eventTypes : EventTypes) :
    ((rules.filter fun ef => ef.concerns c.hostId c.resId && ef.isFor col c.table).map
        FactoryRow.event).Perm
      ((rules.filter fun ef => ef.concerns c.hostId c.resId && ef.isFor col dataType &&
        decide (ef.eventType ∈ eventTypes.rows.map NameRow.id)).map FactoryRow.event) ↔
      RulesAgree col c dataType rules eventTypes := by
  rw [perm_map_filter_iff]
  have hshown (e : ResEvent) (he : e.eventType ∈ eventTypes.rows.map NameRow.id) (ef : FactoryRow)
      (hevent : ef.event = e) :
      (ef.concerns c.hostId c.resId && ef.isFor col dataType &&
        decide (ef.eventType ∈ eventTypes.rows.map NameRow.id)) =
          (ef.concerns c.hostId c.resId && ef.isFor col dataType) := by
    subst hevent
    have hin : decide (ef.eventType ∈ eventTypes.rows.map NameRow.id) = true := decide_eq_true he
    rw [hin, Bool.and_true]
  -- nothing is shown of an event type that does not exist
  have hunknown (e : ResEvent) (he : e.eventType ∉ eventTypes.rows.map NameRow.id) (ef : FactoryRow)
      (hevent : ef.event = e) :
      (ef.concerns c.hostId c.resId && ef.isFor col dataType &&
        decide (ef.eventType ∈ eventTypes.rows.map NameRow.id)) = false := by
    subst hevent
    have hout : decide (ef.eventType ∈ eventTypes.rows.map NameRow.id) = false :=
      decide_eq_false he
    rw [hout, Bool.and_false]
  constructor
  · intro h
    constructor
    · intro ef hef hconcerns hfor
      by_contra hnot
      have hcount := h ef.event
      rw [countP_selected_eq_zero fun row _ => hunknown ef.event hnot row, List.countP_eq_zero]
        at hcount
      apply hcount ef hef
      apply decide_eq_true
      refine ⟨rfl, ?_, hunknown ef.event hnot ef rfl⟩
      rw [hconcerns, hfor]
      rfl
    · intro e he
      rw [← countP_names_only rules (fun _ _ => rfl) (hshown e he),
        ← countP_names_only rules (hshown e he) (fun _ _ => rfl)]
      exact h e
  · intro h e
    by_cases he : e.eventType ∈ eventTypes.rows.map NameRow.id
    · rw [countP_names_only rules (fun _ _ => rfl) (hshown e he),
        countP_names_only rules (hshown e he) (fun _ _ => rfl)]
      exact h.named e he
    · have happlied : ∀ ef ∈ rules, ef.event = e →
          (ef.concerns c.hostId c.resId && ef.isFor col c.table) = false := by
        rintro ef hef rfl
        rw [Bool.eq_false_iff]
        intro happly
        obtain ⟨hconcerns, hfor⟩ := (Bool.and_eq_true _ _).mp happly
        exact he (h.known ef hef hconcerns hfor)
      rw [countP_selected_eq_zero happlied, countP_selected_eq_zero fun ef _ => hunknown e he ef]

/-- The rules that a client of a host applies are those that the view shows for it, exactly if the
rules agree for the data type of its resource. -/
theorem rules_shown_iff (reg : Registry) (hkeyed : reg.Keyed) (calls : List UpdateCall)
    (f : Registrations) (hrun : (Registrations.start reg).run col calls = .ok f) (id : ℕ)
    (b : BoundClient) (hb : b ∈ (f.agents id).ressources) (hhost : b.client.isService = false)
    (db : Database) (eventTypes : EventTypes) :
    ∃ r ∈ f.registry.catalog.ressources, r.id = b.client.resId ∧
      ((b.client.factoryRules col db).Perm
          (f.registry.shownRules col db eventTypes b.client.hostId b.client.resId) ↔
        RulesAgree col b.client r.dataType db.hEventFactory eventTypes) := by
  have hsound := Registrations.sound_run reg hkeyed hrun
  obtain ⟨hlink, hid⟩ := hsound.linked id b hb hhost
  obtain ⟨r, hr, hrid⟩ := List.mem_map.mp hid
  refine ⟨r, hr, hrid, ?_⟩
  rw [← hrid] at hlink ⊢
  rw [Registry.shownRules_eq hsound.keyed hr hlink, hrid, ← perm_iff_rulesAgree]
  unfold RessourceClient.factoryRules Database.eventFactory
  rw [hhost]
  exact Iff.rfl

/-! ### The disk of a host -/

def emptyRegistry : Registry := ⟨emptyCatalog, []⟩

theorem keyed_emptyRegistry : emptyRegistry.Keyed := ⟨List.nodup_nil, List.nodup_nil⟩

/-- Two agents of one host describe its disk by different definitions. -/
def twoDefinitions : List UpdateCall :=
  [⟨0, emptyDatabase, .document (diskDoc "disk")⟩, ⟨1, emptyDatabase, .document (diskDoc "storage")⟩]

/-- A rule for all resources of the second definition. -/
def storageRule : Database :=
  { emptyDatabase with
    hEventFactory := [⟨none, none, some "storage", 1, "pctfree", '<', ⟨250000⟩⟩] }

def criticalEvents : EventTypes := ⟨[⟨1, "Critical"⟩], List.nodup_singleton _⟩

/-- The first agent has a client whose rules are shown. -/
theorem rules_shown_disk :
    ∃ f, (Registrations.start emptyRegistry).run .binary twoDefinitions = .ok f ∧
      ∃ b ∈ (f.agents 0).ressources, b.client.isService = false ∧
        ∃ r ∈ f.registry.catalog.ressources, r.id = b.client.resId ∧
          ((b.client.factoryRules .binary storageRule).Perm
              (f.registry.shownRules .binary storageRule criticalEvents b.client.hostId
                b.client.resId) ↔
            RulesAgree .binary b.client r.dataType storageRule.hEventFactory criticalEvents) := by
  have heval : ((Registrations.start emptyRegistry).run .binary twoDefinitions).toOption.map
      (fun f => (f.agents 0).ressources.map fun b => b.client.isService) = some [false] := by
    decide +kernel
  obtain ⟨f, hf, heq⟩ := exists_ok_of_toOption_map heval
  obtain ⟨b, hb, hhost⟩ := List.mem_map.mp (heq ▸ List.mem_singleton_self _)
  exact ⟨f, hf, b, hb, hhost, rules_shown_iff emptyRegistry keyed_emptyRegistry twoDefinitions f hf 0 b
    hb hhost storageRule criticalEvents⟩

/-- The second agent has a client that applies a rule, and the view shows none. -/
theorem applied_rule_not_shown :
    ∃ f, (Registrations.start emptyRegistry).run .binary twoDefinitions = .ok f ∧
      ∃ b ∈ (f.agents 1).ressources, b.client.isService = false ∧
        ¬ (b.client.factoryRules .binary storageRule).Perm
          (f.registry.shownRules .binary storageRule criticalEvents b.client.hostId
            b.client.resId) := by
  have heval : ((Registrations.start emptyRegistry).run .binary twoDefinitions).toOption.map
      (fun f => (f.agents 1).ressources.map fun b => (b.client.isService,
        (b.client.factoryRules .binary storageRule).length,
        (f.registry.shownRules .binary storageRule criticalEvents b.client.hostId
          b.client.resId).length)) = some [(false, 1, 0)] := by
    decide +kernel
  obtain ⟨f, hf, heq⟩ := exists_ok_of_toOption_map heval
  obtain ⟨b, hb, hb'⟩ := List.mem_map.mp (heq ▸ List.mem_singleton_self _)
  obtain ⟨hhost, hlengths⟩ := Prod.mk.inj hb'
  obtain ⟨happlied, hshown⟩ := Prod.mk.inj hlengths
  refine ⟨f, hf, b, hb, hhost, fun hperm => ?_⟩
  have hlength := hperm.length_eq
  rw [happlied, hshown] at hlength
  cases hlength

end WatchedBack
