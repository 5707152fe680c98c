import WatchedBack.Verification.Api.Catalog

/-! # The updated clients and those of a new agent

A client that is kept has its columns refreshed and nothing else, so it is the client that a new
agent would build exactly if the document still describes it as it was made. -/

namespace WatchedBack

open Fallible Reconcile Catalog

/-- What a client inserts, and for whom. -/
structure ClientView where
  baseurl : String
  ownerId : ℕ
  resId : ℕ
  table : String
  isService : Bool
  servName : String
  columns : List String
  deriving DecidableEq, Repr

/-- The columns that `baseInsert` names. -/
def InsertTemplate.columnNames (template : InsertTemplate) : List String :=
  template.idName :: "res_id" :: template.columns

def BoundClient.view (b : BoundClient) : ClientView where
  baseurl := b.client.baseurl
  ownerId := b.client.hostId
  resId := b.client.resId
  table := b.client.table
  isService := b.client.isService
  servName := b.client.servName
  columns := b.client.baseInsert.columnNames

/-- The path ends in `history` and has a getter. -/
def ApiDocument.HasGetter (doc : ApiDocument) (url : String) : Prop :=
  afterLast url.toList = "history".toList ∧
    ∃ v, (url, v) ∈ doc.paths ∧ v.isMember "get" = .ok true

/-- One client for each path with a getter, and each as a new agent would build it. -/
structure AsRebuilt (doc : ApiDocument) (clients fresh : List BoundClient) : Prop where
  views : ∀ v, v ∈ clients.map BoundClient.view ↔ v ∈ fresh.map BoundClient.view
  one : (clients.map BoundClient.baseurl).Nodup
  paths : ∀ url, url ∈ clients.map BoundClient.baseurl ↔ doc.HasGetter url

/-- The document describes the path of the client as the client was made. -/
structure DescribedAs (col : Collation) (c : Catalog) (path : String × Json) (item : PathItem)
    (service : Option String) (b : RessourceClient) : Prop where
  baseurl : path.1 = b.baseurl
  reads : readPath path = .ok (some item)
  readsService : readService path.2 = .ok service
  table : item.table = b.table
  isService : service.isSome = b.isService
  servName : service.getD "" = b.servName
  owner : c.ownerId col item.host service = some b.hostId

def StillDescribed (col : Collation) (c : Catalog) (doc : ApiDocument) (b : RessourceClient) : Prop :=
  ∃ path ∈ doc.paths, ∃ item service, DescribedAs col c path item service b

/-- The same in everything that is fixed when a client is made. -/
structure SameClient (n b : RessourceClient) : Prop where
  baseurl : n.baseurl = b.baseurl
  ownerId : n.hostId = b.hostId
  resId : n.resId = b.resId
  table : n.table = b.table
  isService : n.isService = b.isService
  servName : n.servName = b.servName

section rebuild

variable {col : Collation} {db : Database} {doc : ApiDocument} {a a' : AgentApi}
  {c c' c₁ : Catalog} {news : List RessourceClient} {b : BoundClient} {n : RessourceClient}
  {url : String}

/-! ### Views -/

theorem SameClient.view (h : SameClient n b.client) (serial serial' : ℕ) :
    (b.rebind serial n).view = (BoundClient.fresh db serial' n).view := by
  have hid : b.client.idName = n.idName := by
    rw [RessourceClient.idName, RessourceClient.idName, h.isService]
  have hcolumns : (b.rebind serial n).client.baseInsert.columnNames =
      (BoundClient.fresh db serial' n).client.baseInsert.columnNames :=
    congrArg (· :: "res_id" :: n.definition.entries.map Prod.fst) hid
  rw [BoundClient.view, BoundClient.view, hcolumns]
  exact ClientView.mk.injEq .. ▸ ⟨h.baseurl.symm, h.ownerId.symm, h.resId.symm, h.table.symm,
    h.isService.symm, h.servName.symm, rfl⟩

/-- A client keeps what it was made with. -/
theorem after_client (serial : ℕ) (news : List RessourceClient) (b : BoundClient) :
    SameClient (b.after serial news).client b.client := by
  rcases b.after_cases serial news with ⟨n, -, -, heq⟩ | ⟨-, heq⟩
  · rw [heq]
    exact ⟨rfl, rfl, rfl, rfl, rfl, rfl⟩
  · rw [heq]
    exact ⟨rfl, rfl, rfl, rfl, rfl, rfl⟩

/-- Equal views are of the same client. -/
theorem sameClient_of_view {serial : ℕ} (h : (BoundClient.fresh db serial n).view = b.view) :
    SameClient n b.client :=
  ⟨congrArg ClientView.baseurl h, congrArg ClientView.ownerId h, congrArg ClientView.resId h,
    congrArg ClientView.table h, congrArg ClientView.isService h, congrArg ClientView.servName h⟩

theorem SameClient.trans {n m b : RessourceClient} (h : SameClient n m) (h' : SameClient m b) :
    SameClient n b :=
  ⟨h.baseurl.trans h'.baseurl, h.ownerId.trans h'.ownerId, h.resId.trans h'.resId,
    h.table.trans h'.table, h.isService.trans h'.isService, h.servName.trans h'.servName⟩

theorem mem_baseurls_iff {clients : List BoundClient} :
    url ∈ clients.map BoundClient.baseurl ↔
      ∃ v ∈ clients.map BoundClient.view, v.baseurl = url := by
  constructor
  · intro h
    obtain ⟨b, hb, rfl⟩ := List.mem_map.mp h
    exact ⟨b.view, List.mem_map_of_mem hb, rfl⟩
  · rintro ⟨v, hv, rfl⟩
    obtain ⟨b, hb, rfl⟩ := List.mem_map.mp hv
    exact List.mem_map.mpr ⟨b, hb, rfl⟩

/-! ### The described paths -/

theorem readPath_isSome_iff {path : String × Json} {item : Option PathItem}
    (h : readPath path = .ok item) : item.isSome = true ↔
      afterLast path.1.toList = "history".toList ∧ path.2.isMember "get" = .ok true := by
  rcases readPath_cases h with ⟨rfl, hnot⟩ | ⟨i, rfl, hlast, hget, -⟩
  · exact iff_of_false (by simp) hnot
  · exact iff_of_true rfl ⟨hlast, hget⟩

/-- The server has an id for every resource, so each path of one is described. -/
theorem exists_described {path : String × Json} {item : PathItem} (hmem : path ∈ doc.paths)
    (hitem : readPath path = .ok (some item))
    (h : describeAll (Catalog.store col) doc.value doc.paths c = .ok (news, c')) :
    ∃ m t service, c.Extends m ∧ t.Extends c' ∧ readService path.2 = .ok service ∧
      ∃ n ∈ news, Description (Catalog.store col) doc.value path m (some n) t ∧
        n.baseurl = path.1 ∧ n.table = item.table ∧ n.isService = service.isSome ∧
        n.servName = service.getD "" ∧ t.ownerId col item.host service = some n.hostId := by
  obtain ⟨before, after, olds, m, new, t, rest, -, holds, hnew, hrest, rfl⟩ :=
    describeAll_at hmem h
  have hdesc := describe_description hnew
  cases hdesc with
  | other hother =>
      rw [hitem] at hother
      cases hother
  | unknown item' hpath hid => exact absurd hid (lookupRessource_spec col item' m).2.2
  | client item' service definition hpath hid hservice hdef =>
      have howner := (ownerAnswer_spec col item' service m).2
      rw [hitem] at hpath
      cases hpath
      exact ⟨m, _, service, describeAll_extends holds, describeAll_extends hrest, hservice, _,
        by simp, .client item service definition hitem hid hservice hdef, rfl, rfl, rfl, rfl, howner⟩

/-- Where a described client comes from. -/
theorem exists_path (hmem : n ∈ news)
    (h : describeAll (Catalog.store col) doc.value doc.paths c = .ok (news, c')) :
    ∃ path ∈ doc.paths, ∃ item service m t, c.Extends m ∧
      Description (Catalog.store col) doc.value path m (some n) t ∧ t.Extends c' ∧
      DescribedAs col t path item service n := by
  obtain ⟨before, path, after, olds, m, t, heq, holds, hnew⟩ := (mem_describeAll h).mp hmem
  have hpath : path ∈ doc.paths := by rw [heq]; simp
  rw [heq] at h
  obtain ⟨olds', m', rest, holds', hrest, -⟩ := describeAll_append_eq_ok.mp h
  rw [holds] at holds'
  cases holds'
  obtain ⟨new', t', rest', hnew', hrest', -⟩ := describeAll_cons_eq_ok.mp hrest
  rw [hnew] at hnew'
  cases hnew'
  have hdesc := describe_description hnew
  refine ⟨path, hpath, ?_⟩
  cases hdesc with
  | client item service definition hread hid hservice hdef =>
      exact ⟨item, service, m, _, describeAll_extends holds,
        .client item service definition hread hid hservice hdef, describeAll_extends hrest',
        ⟨rfl, hread, hservice, rfl, rfl, rfl, (ownerAnswer_spec col item service m).2⟩⟩

theorem described_iff_hasGetter
    (h : describeAll (Catalog.store col) doc.value doc.paths c = .ok (news, c')) :
    url ∈ news.map RessourceClient.baseurl ↔ doc.HasGetter url := by
  constructor
  · intro hmem
    obtain ⟨n, hn, rfl⟩ := List.mem_map.mp hmem
    obtain ⟨path, hpath, item, service, m, t, -, -, -, hdesc⟩ := exists_path hn h
    obtain ⟨hlast, hget⟩ := (readPath_isSome_iff hdesc.reads).mp rfl
    rw [← hdesc.baseurl]
    exact ⟨hlast, path.2, hpath, hget⟩
  · rintro ⟨hlast, v, hmem, hget⟩
    obtain ⟨before, after, olds, m, new, t, rest, -, -, hnew, -, -⟩ := describeAll_at hmem h
    obtain ⟨item, hread, -⟩ := bind_eq_ok.mp hnew
    obtain ⟨item, rfl⟩ := Option.isSome_iff_exists.mp
      ((readPath_isSome_iff hread).mpr ⟨hlast, hget⟩)
    obtain ⟨m, t, service, -, -, -, n, hn, -, hurl, -⟩ := exists_described hmem hread h
    exact List.mem_map.mpr ⟨n, hn, hurl⟩

theorem KnownClient.resId_eq {d : Catalog} {n b : RessourceClient} (hn : KnownClient col d n)
    (hb : KnownClient col d b) (hurl : n.baseurl = b.baseurl) : n.resId = b.resId := by
  obtain ⟨origin, name, hname, hid⟩ := hn.ressource
  obtain ⟨origin', name', hname', hid'⟩ := hb.ressource
  rw [hurl, hname'] at hname
  cases hname
  rw [hid'] at hid
  exact (Option.some.inj hid).symm

/-- The document describes a known client as it was made exactly if it is described again. -/
theorem stillDescribed_iff {b : RessourceClient} (hb : KnownClient col c b)
    (h : describeAll (Catalog.store col) doc.value doc.paths c = .ok (news, c')) :
    StillDescribed col c doc b ↔ ∃ n ∈ news, SameClient n b := by
  constructor
  · rintro ⟨path, hpath, item, service, hdesc⟩
    obtain ⟨m, t, service', hext, -, hservice, n, hn, hnew, hurl, htable, hkind, hserv, howner⟩ :=
      exists_described hpath hdesc.reads h
    rw [hdesc.readsService] at hservice
    cases hservice
    have hbefore := hext.trans hnew.extends
    have hurl' := hurl.trans hdesc.baseurl
    refine ⟨n, hn, hurl', ?_, ?_, htable.trans hdesc.table, hkind.trans hdesc.isService,
      hserv.trans hdesc.servName⟩
    · rw [hbefore.ownerId hdesc.owner] at howner
      exact (Option.some.inj howner).symm
    · exact KnownClient.resId_eq hnew.known (hb.extends hbefore) hurl'
  · rintro ⟨n, hn, hsame⟩
    obtain ⟨path, hpath, item, service, m, t, hext, hnew, -, hdesc⟩ := exists_path hn h
    have hbefore := hext.trans hnew.extends
    have hkind := hdesc.isService.trans hsame.isService
    refine ⟨path, hpath, item, service, hdesc.baseurl.trans hsame.baseurl, hdesc.reads,
      hdesc.readsService, hdesc.table.trans hsame.table, hkind,
      hdesc.servName.trans hsame.servName, ?_⟩
    apply hb.ownerId_before hbefore hkind.symm
    rw [hdesc.owner, hsame.ownerId]

/-! ### One document -/

/-- A client whose path is described is bound to that description. -/
theorem Updates.after_eq {serial : ℕ} (h : Updates (Catalog.store col) db doc a c a' c' news c₁)
    (hn : n ∈ news) (hurl : n.baseurl = b.baseurl) : b.after serial news = b.rebind serial n :=
  refreshed_of_mem h.nodup hn hurl

theorem Updates.reconciled_distinct (h : Updates (Catalog.store col) db doc a c a' c' news c₁)
    (hdistinct : (a.ressources.map BoundClient.baseurl).Nodup) :
    (a'.ressources.map BoundClient.baseurl).Nodup := by
  have hall := upsertAll_keys_nodup (keepsKeys db (a.serial + 1)) hdistinct h.nodup
  rw [h.ressources]
  exact (List.filter_sublist.map _).nodup hall

/-- The clients are those of a new agent exactly if each client that stays is described again as
it was made. -/
theorem Updates.asRebuilt_iff (h : Updates (Catalog.store col) db doc a c a' c' news c₁)
    (hdistinct : (a.ressources.map BoundClient.baseurl).Nodup) (serial : ℕ) :
    AsRebuilt doc a'.ressources (news.map (BoundClient.fresh db serial)) ↔
      ∀ b ∈ a.ressources, b.baseurl ∈ doc.paths.map Prod.fst →
        ∃ n ∈ news, SameClient n b.client := by
  constructor
  · intro hsame b hb hpath
    have hafter := h.mem_ressources.mpr (Or.inl ⟨b, hb, hpath, rfl⟩)
    have hview := (hsame.views _).mp (List.mem_map_of_mem hafter)
    rw [List.map_map] at hview
    obtain ⟨n, hn, heq⟩ := List.mem_map.mp hview
    have hclient : SameClient n (b.after (a.serial + 1) news).client :=
      sameClient_of_view heq
    exact ⟨n, hn, hclient.trans (after_client _ _ b)⟩
  · intro hall
    have hviews (v : ClientView) : v ∈ a'.ressources.map BoundClient.view ↔
        v ∈ (news.map (BoundClient.fresh db serial)).map BoundClient.view := by
      rw [List.map_map]
      constructor
      · intro hv
        obtain ⟨d, hd, rfl⟩ := List.mem_map.mp hv
        rcases h.mem_ressources.mp hd with ⟨b, hb, hpath, rfl⟩ | ⟨n, hn, -, rfl⟩
        · obtain ⟨n, hn, hsame⟩ := hall b hb hpath
          rw [h.after_eq hn hsame.baseurl, hsame.view]
          exact List.mem_map_of_mem hn
        · exact List.mem_map_of_mem hn
      · intro hv
        obtain ⟨n, hn, rfl⟩ := List.mem_map.mp hv
        by_cases hold : n.baseurl ∈ a.ressources.map BoundClient.baseurl
        · obtain ⟨b, hb, hurl⟩ := List.mem_map.mp hold
          have hpath : b.baseurl ∈ doc.paths.map Prod.fst := by
            rw [hurl]
            exact h.baseurl_mem hn
          obtain ⟨n', hn', hsame⟩ := hall b hb hpath
          have hnn : n' = n :=
            List.inj_on_of_nodup_map h.nodup hn' hn (hsame.baseurl.trans hurl)
          rw [hnn] at hsame
          have hmem := h.mem_ressources.mpr (Or.inl ⟨b, hb, hpath, rfl⟩)
          rw [h.after_eq hn hsame.baseurl] at hmem
          exact List.mem_map.mpr ⟨_, hmem, hsame.view _ serial⟩
        · exact List.mem_map.mpr ⟨_, h.mem_ressources.mpr (Or.inr ⟨n, hn, hold, rfl⟩), rfl⟩
    refine ⟨hviews, h.reconciled_distinct hdistinct, fun url => ?_⟩
    rw [← described_iff_hasGetter (h.described rfl), mem_baseurls_iff]
    simp only [hviews]
    rw [← mem_baseurls_iff, List.map_map]
    rfl

/-! ### Every run -/

/-- What holds of every agent: its clients are known to the tables, each of its own path. -/
structure Fleet.Sound (col : Collation) (f : Fleet) : Prop where
  known : ∀ id, ∀ b ∈ (f.agents id).ressources, KnownClient col f.catalog b.client
  distinct : ∀ id, ((f.agents id).ressources.map BoundClient.baseurl).Nodup

theorem Updates.extends (h : Updates (Catalog.store col) db doc a c a' c' news c₁) :
    c₁.Extends c' ∧ c.Extends c' := by
  obtain ⟨a₁, -, -, htables⟩ := h.tables
  have htail := (createTables_sameRows htables).extends
  exact ⟨htail, (describeAll_extends (h.described rfl)).trans htail⟩

theorem KnownClient.of_same {n b : RessourceClient} (h : KnownClient col c b)
    (hsame : SameClient n b) : KnownClient col c n := by
  obtain ⟨origin, name, hname, hid⟩ := h.ressource
  refine ⟨⟨origin, name, hsame.baseurl ▸ hname, hsame.resId ▸ hid⟩, ?_, ?_⟩
  · rw [hsame.isService, hsame.ownerId]
    exact h.host
  · rw [hsame.isService, hsame.ownerId]
    exact h.service

theorem Updates.known (h : Updates (Catalog.store col) db doc a c a' c' news c₁)
    (hknown : ∀ b ∈ a.ressources, KnownClient col c b.client) :
    ∀ b ∈ a'.ressources, KnownClient col c' b.client := by
  intro b hb
  rcases h.mem_ressources.mp hb with ⟨d, hd, -, rfl⟩ | ⟨n, hn, -, rfl⟩
  · exact ((hknown d hd).of_same (after_client _ _ d)).extends h.extends.2
  · obtain ⟨path, -, item, service, m, t, -, hnew, hext, -⟩ := exists_path hn (h.described rfl)
    have hsame : SameClient (BoundClient.fresh db (a.serial + 1) n).client n :=
      ⟨rfl, rfl, rfl, rfl, rfl, rfl⟩
    exact ((hnew.known.extends hext).of_same hsame).extends h.extends.1

variable {f f' : Fleet} {call : UpdateCall}

theorem Fleet.update_eq_ok (h : f.update col call = .ok f') :
    ∃ a' c', updateApi (Catalog.store col) call.db call.reply (f.agents call.agent) f.catalog =
        .ok (a', c') ∧ f' = ⟨c', Function.update f.agents call.agent a'⟩ := by
  obtain ⟨⟨a', c'⟩, hupdate, h⟩ := bind_eq_ok.mp h
  cases h
  exact ⟨a', c', hupdate, rfl⟩

/-- What the clients of all agents have after one of them was updated. -/
theorem Fleet.forall_update_iff (P : BoundClient → Prop) {agent : ℕ} {a' : AgentApi} :
    (∀ id, ∀ b ∈ (Function.update f.agents agent a' id).ressources, P b) ↔
      (∀ b ∈ a'.ressources, P b) ∧ ∀ id ≠ agent, ∀ b ∈ (f.agents id).ressources, P b :=
  Function.forall_update_iff f.agents fun _ a => ∀ b ∈ a.ressources, P b

theorem Fleet.Sound.update (hf : f.Sound col) (h : f.update col call = .ok f') : f'.Sound col := by
  obtain ⟨a', c', hupdate, rfl⟩ := Fleet.update_eq_ok h
  obtain ⟨hext, hknown, hdistinct⟩ : f.catalog.Extends c' ∧
      (∀ b ∈ a'.ressources, KnownClient col c' b.client) ∧
      (a'.ressources.map BoundClient.baseurl).Nodup := by
    rcases updateApi_other hupdate with ⟨doc, hdoc⟩ | ⟨-, hclients, rfl⟩
    · rw [hdoc] at hupdate
      obtain ⟨news, c₁, hupdates⟩ := updateApi_document hupdate
      exact ⟨hupdates.extends.2, hupdates.known (hf.known call.agent),
        hupdates.reconciled_distinct (hf.distinct call.agent)⟩
    · rw [hclients]
      exact ⟨.refl _, hf.known call.agent, hf.distinct call.agent⟩
  constructor
  · apply (Fleet.forall_update_iff fun b => KnownClient col c' b.client).mpr
    exact ⟨hknown, fun id _ b hb => (hf.known id b hb).extends hext⟩
  · apply (Function.forall_update_iff f.agents
      fun _ a => (a.ressources.map BoundClient.baseurl).Nodup).mpr
    exact ⟨hdistinct, fun id _ => hf.distinct id⟩

theorem Fleet.sound_run {calls : List UpdateCall} (h : (Fleet.start c).run col calls = .ok f) :
    f.Sound col := by
  apply foldlM_invariant (Fleet.Sound col) (fun s s' call _ hs hcall => hs.update hcall) _ h
  constructor
  · intro id b hb
    cases hb
  · intro id
    exact List.nodup_nil

/-- After any run, one more document makes the clients of its agent those that a new agent would
build from it, exactly if it describes each client that it keeps as that client was made. -/
theorem update_rebuilds_iff {calls : List UpdateCall} {agent : ℕ}
    (hrun : (Fleet.start c).run col calls = .ok f)
    (hlast : f.update col ⟨agent, db, .document doc⟩ = .ok f') :
    ∃ fresh c', updateApi (Catalog.store col) db (.document doc) .new f.catalog = .ok (fresh, c') ∧
      (AsRebuilt doc (f'.agents agent).ressources fresh.ressources ↔
        ∀ b ∈ (f.agents agent).ressources, b.baseurl ∈ doc.paths.map Prod.fst →
          StillDescribed col f.catalog doc b.client) := by
  have hsound := Fleet.sound_run hrun
  obtain ⟨a', c', hupdate, rfl⟩ := Fleet.update_eq_ok hlast
  obtain ⟨news, c₁, hupdates⟩ := updateApi_document hupdate
  obtain ⟨fresh, hfresh, hclients⟩ := hupdates.of_new rfl
  refine ⟨fresh, c', hfresh, ?_⟩
  rw [hclients]
  simp only [Function.update_self]
  rw [hupdates.asRebuilt_iff (hsound.distinct agent)]
  apply forall₂_congr
  intro b hb
  rw [stillDescribed_iff (hsound.known agent b hb) (hupdates.described rfl)]

end rebuild

/-! ### The disk of a host -/

def diskUpdate (doc : ApiDocument) : UpdateCall := ⟨0, emptyDatabase, .document doc⟩

/-- A document, one more by the same agent, and that one alone by a new agent. -/
def rebuildDisk (first second : ApiDocument) : Except Fault (Fleet × Fleet × AgentApi × Catalog) := do
  let f ← (Fleet.start emptyCatalog).run .binary [diskUpdate first]
  let f' ← f.update .binary (diskUpdate second)
  let (fresh, c) ← updateApi (Catalog.store .binary) emptyDatabase (.document second) .new f.catalog
  return (f, f', fresh, c)

theorem rebuildDisk_eq_ok {first second : ApiDocument} {f f' : Fleet} {fresh : AgentApi}
    {c : Catalog} (h : rebuildDisk first second = .ok (f, f', fresh, c)) :
    (Fleet.start emptyCatalog).run .binary [diskUpdate first] = .ok f ∧
      f.update .binary (diskUpdate second) = .ok f' ∧
      updateApi (Catalog.store .binary) emptyDatabase (.document second) .new f.catalog =
        .ok (fresh, c) := by
  obtain ⟨f₁, hf, h⟩ := bind_eq_ok.mp h
  obtain ⟨f₂, hf', h⟩ := bind_eq_ok.mp h
  obtain ⟨⟨a, d⟩, hfresh, h⟩ := bind_eq_ok.mp h
  cases h
  exact ⟨hf, hf', hfresh⟩

theorem disk_reads : readPath ("/system/disk/history",
    getterPath "#/definitions/disk" [("x-host", .str "web")]) =
      .ok (some ⟨"host", "disk", "disk", "web"⟩) :=
  eq_ok_of_toOption (by decide +kernel)

theorem disk_run : Succeeds ((Fleet.start emptyCatalog).run .binary [diskUpdate (diskDoc "disk")]) :=
  succeeds_of_isSome (by decide +kernel)

theorem update_rebuilds_disk :
    ∃ f f' fresh c, (Fleet.start emptyCatalog).run .binary [diskUpdate (diskDoc "disk")] = .ok f ∧
      f.update .binary (diskUpdate (diskDoc "disk")) = .ok f' ∧
      updateApi (Catalog.store .binary) emptyDatabase (.document (diskDoc "disk")) .new f.catalog =
        .ok (fresh, c) ∧
      AsRebuilt (diskDoc "disk") (f'.agents 0).ressources fresh.ressources := by
  have heval : ((rebuildDisk (diskDoc "disk") (diskDoc "disk")).toOption.map fun r =>
      ((r.1.agents 0).ressources.map BoundClient.view, r.1.catalog.ownerId .binary "web" none)) =
      some ([⟨"/system/disk/history", 1, 1, "disk", false, "", ["host_id", "res_id", "pctfree"]⟩],
        some 1) := by
    decide +kernel
  obtain ⟨⟨f, f', fresh, c⟩, hrun, heq⟩ := exists_ok_of_toOption_map heval
  obtain ⟨hf, hf', hfresh⟩ := rebuildDisk_eq_ok hrun
  obtain ⟨hviews, howner⟩ := Prod.mk.inj heq
  obtain ⟨fresh', c', hfresh', hiff⟩ := update_rebuilds_iff hf hf'
  rw [hfresh] at hfresh'
  cases hfresh'
  refine ⟨f, f', fresh, c, hf, hf', hfresh, hiff.mpr fun b hb _ => ?_⟩
  have hview : b.view = ⟨"/system/disk/history", 1, 1, "disk", false, "",
      ["host_id", "res_id", "pctfree"]⟩ := by
    rw [← List.mem_singleton, ← hviews]
    exact List.mem_map_of_mem hb
  obtain ⟨hurl, howner', -, htable, hkind, hserv, -⟩ := ClientView.mk.injEq .. ▸ hview
  refine ⟨_, List.mem_singleton_self _, _, none, hurl.symm, disk_reads, rfl,
    htable.symm, hkind.symm, hserv.symm, ?_⟩
  rw [howner']
  exact howner

/-- Another definition under the same path: the client still inserts into the old table. -/
theorem renamed_definition_differs :
    ∃ f f' fresh c, (Fleet.start emptyCatalog).run .binary [diskUpdate (diskDoc "disk")] = .ok f ∧
      f.update .binary (diskUpdate (diskDoc "storage")) = .ok f' ∧
      updateApi (Catalog.store .binary) emptyDatabase (.document (diskDoc "storage")) .new
        f.catalog = .ok (fresh, c) ∧
      ¬ AsRebuilt (diskDoc "storage") (f'.agents 0).ressources fresh.ressources := by
  have heval : ((rebuildDisk (diskDoc "disk") (diskDoc "storage")).toOption.map fun r =>
      ((r.2.1.agents 0).ressources.map BoundClient.view, r.2.2.1.ressources.map BoundClient.view)) =
      some ([⟨"/system/disk/history", 1, 1, "disk", false, "", ["host_id", "res_id", "pctfree"]⟩],
        [⟨"/system/disk/history", 1, 1, "storage", false, "",
          ["host_id", "res_id", "pctfree"]⟩]) := by
    decide +kernel
  obtain ⟨⟨f, f', fresh, c⟩, hrun, heq⟩ := exists_ok_of_toOption_map heval
  obtain ⟨hf, hf', hfresh⟩ := rebuildDisk_eq_ok hrun
  obtain ⟨hviews, hfreshViews⟩ := Prod.mk.inj heq
  refine ⟨f, f', fresh, c, hf, hf', hfresh, fun hsame => ?_⟩
  have hmem := (hsame.views _).mp (hviews ▸ List.mem_singleton_self _)
  rw [hfreshViews, List.mem_singleton] at hmem
  exact absurd (congrArg ClientView.table hmem) (by decide)

end WatchedBack
