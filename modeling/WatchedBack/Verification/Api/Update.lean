import WatchedBack.Library.Fallible
import WatchedBack.Library.Reconcile
import WatchedBack.Model.Api

/-! # What an update makes of the clients

The loop over the paths reads and asks the server first, and only then looks at the clients: so
its run is a run of descriptions, and after it the clients are reconciled with them. -/

namespace WatchedBack

open Fallible Reconcile

def ApiDocument.paths (doc : ApiDocument) : List (String × Json) := doc.value.entriesAt "paths"

/-- The client that a path adds. -/
def BoundClient.fresh (db : Database) (serial : ℕ) (new : RessourceClient) : BoundClient :=
  ⟨new.init db, serial, new.table⟩

def BoundClient.baseurl (b : BoundClient) : String := b.client.baseurl

section update

variable {σ : Type} (store : Store σ) (db : Database)

/-- The descriptions of the paths, one after the other. -/
def describeAll (api : Json) : List (String × Json) → σ → Except Fault (List RessourceClient × σ)
  | [], s => .ok ([], s)
  | path :: paths, s => do
      let (new, s) ← describe store api path s
      let (news, s) ← describeAll api paths s
      return (new.toList ++ news, s)

/-- The clients after all descriptions. -/
def reconciled (serial : ℕ) (clients : List BoundClient) (news : List RessourceClient) :
    List BoundClient :=
  upsertAll BoundClient.baseurl RessourceClient.baseurl (BoundClient.rebind serial)
    (BoundClient.fresh db serial) clients news

theorem keepsKeys (serial : ℕ) : KeepsKeys BoundClient.baseurl RessourceClient.baseurl
    (BoundClient.rebind serial) (BoundClient.fresh db serial) :=
  ⟨fun _ _ => rfl, fun _ => rfl⟩

variable {store db} {a a' : AgentApi} {s s' : σ} {paths : List (String × Json)}
  {news : List RessourceClient} {doc : ApiDocument}

/-- A kept client, after the description of its path or without one. -/
def BoundClient.after (serial : ℕ) (news : List RessourceClient) (b : BoundClient) : BoundClient :=
  refreshed BoundClient.baseurl RessourceClient.baseurl (BoundClient.rebind serial) news b

theorem BoundClient.after_cases (serial : ℕ) (news : List RessourceClient) (b : BoundClient) :
    (∃ n ∈ news, n.baseurl = b.baseurl ∧ b.after serial news = b.rebind serial n) ∨
      b.baseurl ∉ news.map RessourceClient.baseurl ∧ b.after serial news = b :=
  refreshed_cases _ _ _ news b

@[simp] theorem BoundClient.after_baseurl (serial : ℕ) (news : List RessourceClient)
    (b : BoundClient) : (b.after serial news).baseurl = b.baseurl := by
  rcases b.after_cases serial news with ⟨n, -, -, heq⟩ | ⟨-, heq⟩
  · rw [heq]
    rfl
  · rw [heq]

/-! ### The loop over the paths -/

/-- The agent after all descriptions. -/
theorem foldl_addRessource (a : AgentApi) (news : List RessourceClient) :
    news.foldl (addRessource db) a =
      ⟨a.api, a.serial, a.asked ++ news.map RessourceClient.table,
        reconciled db a.serial a.ressources news⟩ := by
  induction news generalizing a with
  | nil => simp [reconciled, upsertAll]
  | cons new news ih =>
      rw [List.foldl_cons, ih]
      simp only [addRessource, List.append_assoc, List.map_cons, List.cons_append,
        List.nil_append]
      rfl

theorem foldlM_createRessource (a : AgentApi) (paths : List (String × Json)) (s : σ) :
    paths.foldlM (createRessource store db) (a, s) =
      (describeAll store a.api paths s).map fun r => (r.1.foldl (addRessource db) a, r.2) := by
  induction paths generalizing a s with
  | nil => rfl
  | cons path paths ih =>
      rw [List.foldlM_cons, describeAll, createRessource]
      cases hstep : describe store a.api path s with
      | error e => rfl
      | ok r =>
          obtain ⟨new, s⟩ := r
          cases new with
          | none =>
              simp only [ok_bind, pure_eq_ok, ih]
              cases describeAll store a.api paths s <;> rfl
          | some new =>
              simp only [ok_bind, pure_eq_ok, ih]
              have hapi : (addRessource db a new).api = a.api := rfl
              rw [hapi]
              cases describeAll store a.api paths s <;> rfl

/-! ### One description -/

/-- The answer to `getHost`, after those about the resource. -/
def hostAnswer (store : Store σ) (item : PathItem) (s : σ) : ℕ × σ :=
  store.getHost item.host (lookupRessource store item s).2

/-- The last answer: the host or the service of the client. -/
def ownerAnswer (store : Store σ) (item : PathItem) (service : Option String) (s : σ) : ℕ × σ :=
  lookupOwner store (hostAnswer store item s).1 service (hostAnswer store item s).2

/-- What `describe` comes to: a path that is no resource, a resource without an id, or a client. -/
inductive Description (store : Store σ) (api : Json) (path : String × Json) (s : σ) :
    Option RessourceClient → σ → Prop where
  | other (hpath : readPath path = .ok none) : Description store api path s none s
  | unknown (item : PathItem) (hpath : readPath path = .ok (some item))
      (hid : (lookupRessource store item s).1 = 0) :
      Description store api path s none (hostAnswer store item s).2
  | client (item : PathItem) (service : Option String) (definition : Json)
      (hpath : readPath path = .ok (some item)) (hid : (lookupRessource store item s).1 ≠ 0)
      (hservice : readService path.2 = .ok service)
      (hdef : api.path ["definitions", item.table, "properties"] = .ok definition) :
      Description store api path s
        (some (.make (ownerAnswer store item service s).1 (lookupRessource store item s).1 path.1
          item.table service definition))
        (store.link service.isSome (ownerAnswer store item service s).1
          (lookupRessource store item s).1 (ownerAnswer store item service s).2)

/-- A history path with a getter. -/
theorem describe_of_item {api : Json} {path : String × Json} {item : PathItem}
    (h : readPath path = .ok (some item)) (s : σ) :
    describe store api path s =
      if (lookupRessource store item s).1 = 0 then .ok (none, (hostAnswer store item s).2)
      else do
        let service ← readService path.2
        let definition ← api.path ["definitions", item.table, "properties"]
        return (some (.make (ownerAnswer store item service s).1 (lookupRessource store item s).1 path.1
            item.table service definition),
          store.link service.isSome (ownerAnswer store item service s).1
            (lookupRessource store item s).1 (ownerAnswer store item service s).2) := by
  unfold describe
  rw [h]
  rfl

theorem describe_description {api : Json} {path : String × Json} {new : Option RessourceClient}
    (h : describe store api path s = .ok (new, s')) : Description store api path s new s' := by
  obtain ⟨item, hpath, h⟩ := bind_eq_ok.mp h
  cases item with
  | none =>
      cases h
      exact .other hpath
  | some item =>
      dsimp only at h
      split at h
      · next hid =>
        cases h
        exact .unknown item hpath hid
      · next hid =>
        obtain ⟨service, hservice, h⟩ := bind_eq_ok.mp h
        obtain ⟨definition, hdef, h⟩ := bind_eq_ok.mp h
        cases h
        exact .client item service definition hpath hid hservice hdef

/-- A described client is of its path. -/
theorem describe_baseurl {api : Json} {path : String × Json} {new : RessourceClient}
    (h : describe store api path s = .ok (some new, s')) : new.baseurl = path.1 := by
  cases describe_description h
  rfl

theorem createTable_of_not_skipped {definition : String × Json}
    (h : skipped definition = .ok false) (s : σ) :
    createTable store s definition =
      if (store.haveTable ("d$" ++ definition.1) s).1 = true then do
        (← definition.2.member "properties").entries.foldlM
          (addMissing store ("d$" ++ definition.1)) (store.haveTable ("d$" ++ definition.1) s).2
      else do
        return store.createTable ⟨"d$" ++ definition.1, ← newColumns definition.2⟩
          (store.haveTable ("d$" ++ definition.1) s).2 := by
  unfold createTable
  rw [h]
  rfl

/-! ### What the definitions leave as it is -/

/-- The calls of `createTables` keep the property. -/
structure Store.TablesKeep (store : Store σ) (P : σ → Prop) : Prop where
  grab (s : σ) : P s → P (store.grab s).2
  haveTable (name : String) (s : σ) : P s → P (store.haveTable name s).2
  createTable (table : DataTable) (s : σ) : P s → P (store.createTable table s)
  tableHasColumn (table column : String) (s : σ) : P s → P (store.tableHasColumn table column s).2
  addColumn (table : String) (column : DataColumn) (s : σ) : P s → P (store.addColumn table column s)

section tables

variable {P : σ → Prop} (hkeep : store.TablesKeep P)
include hkeep

theorem addMissing_keeps {table : String} {property : String × Json} (hs : P s)
    (h : addMissing store table s property = .ok s') : P s' := by
  have hasked := hkeep.tableHasColumn table property.1 s hs
  unfold addMissing at h
  generalize store.tableHasColumn table property.1 s = asked at h hasked
  obtain ⟨known, s₁⟩ := asked
  cases known with
  | true =>
      cases h
      exact hasked
  | false =>
      obtain ⟨type, -, h⟩ := bind_eq_ok.mp h
      cases type with
      | none =>
          cases h
          exact hasked
      | some type =>
          cases h
          exact hkeep.addColumn _ _ _ hasked

theorem createTable_keeps {definition : String × Json} (hs : P s)
    (h : createTable store s definition = .ok s') : P s' := by
  cases hskip : skipped definition with
  | error fault =>
      rw [createTable, hskip] at h
      cases h
  | ok skip =>
      cases skip with
      | true =>
          rw [createTable, hskip] at h
          cases h
          exact hs
      | false =>
          have hasked := hkeep.haveTable ("d$" ++ definition.1) s hs
          rw [createTable_of_not_skipped hskip] at h
          split at h
          · obtain ⟨properties, -, h⟩ := bind_eq_ok.mp h
            exact foldlM_invariant P (fun m m' property _ hm hstep => addMissing_keeps hkeep hm hstep)
              hasked h
          · obtain ⟨columns, -, h⟩ := bind_eq_ok.mp h
            cases h
            exact hkeep.createTable _ _ hasked

theorem createTables_keeps (hs : P s) (h : createTables store a s = .ok s') : P s' := by
  have hgrabbed := hkeep.grab s hs
  unfold createTables at h
  generalize store.grab s = grab at h hgrabbed
  obtain ⟨grabbed, s₁⟩ := grab
  cases grabbed with
  | false =>
      cases h
      exact hgrabbed
  | true =>
      obtain ⟨definitions, -, h⟩ := bind_eq_ok.mp h
      exact foldlM_invariant P (fun m m' definition _ hm hstep => createTable_keeps hkeep hm hstep)
        hgrabbed h

end tables

/-! ### A server with more tables -/

section projection

variable {τ : Type}

/-- Every call answers what `small` answers, and leaves in its tables what it does there. -/
structure Store.Projects (big : Store τ) (small : Store σ) (view : τ → σ) : Prop where
  grab (t : τ) : (big.grab t).map id view = small.grab (view t)
  haveRessource (origin name : String) (t : τ) :
    (big.haveRessource origin name t).map id view = small.haveRessource origin name (view t)
  insertRessource (name origin dataType : String) (t : τ) :
    view (big.insertRessource name origin dataType t) =
      small.insertRessource name origin dataType (view t)
  getRessourceId (origin name : String) (t : τ) :
    (big.getRessourceId origin name t).map id view = small.getRessourceId origin name (view t)
  getHost (name : String) (t : τ) : (big.getHost name t).map id view = small.getHost name (view t)
  getService (hostId : ℕ) (name : String) (t : τ) :
    (big.getService hostId name t).map id view = small.getService hostId name (view t)
  link (isService : Bool) (ownerId resId : ℕ) (t : τ) :
    view (big.link isService ownerId resId t) = small.link isService ownerId resId (view t)
  haveTable (name : String) (t : τ) :
    (big.haveTable name t).map id view = small.haveTable name (view t)
  createTable (table : DataTable) (t : τ) :
    view (big.createTable table t) = small.createTable table (view t)
  tableHasColumn (table column : String) (t : τ) :
    (big.tableHasColumn table column t).map id view = small.tableHasColumn table column (view t)
  addColumn (table : String) (column : DataColumn) (t : τ) :
    view (big.addColumn table column t) = small.addColumn table column (view t)

variable {big : Store τ} {small : Store σ} {view : τ → σ} (h : big.Projects small view)
include h

theorem lookupRessource_projects (item : PathItem) (t : τ) :
    (lookupRessource big item t).map id view = lookupRessource small item (view t) := by
  unfold lookupRessource
  rw [← h.haveRessource]
  obtain ⟨known, t'⟩ := big.haveRessource item.origin item.name t
  cases known with
  | true => exact h.getRessourceId _ _ _
  | false =>
      simp only [Prod.map_apply, id_eq, Bool.false_eq_true, if_false]
      rw [← h.insertRessource, ← h.getRessourceId]

theorem lookupOwner_projects (hostId : ℕ) (service : Option String) (t : τ) :
    (lookupOwner big hostId service t).map id view = lookupOwner small hostId service (view t) := by
  cases service with
  | none => rfl
  | some name => exact h.getService _ _ _

theorem hostAnswer_projects (item : PathItem) (t : τ) :
    (hostAnswer big item t).map id view = hostAnswer small item (view t) := by
  unfold hostAnswer
  rw [h.getHost, ← lookupRessource_projects h, Prod.map_snd]

theorem ownerAnswer_projects (item : PathItem) (service : Option String) (t : τ) :
    (ownerAnswer big item service t).map id view = ownerAnswer small item service (view t) := by
  unfold ownerAnswer
  rw [lookupOwner_projects h, ← hostAnswer_projects h, Prod.map_snd, Prod.map_fst]
  rfl

theorem describe_projects (api : Json) (path : String × Json) (t : τ) :
    (describe big api path t).map (Prod.map id view) = describe small api path (view t) := by
  cases hread : readPath path with
  | error fault =>
      unfold describe
      rw [hread]
      rfl
  | ok item =>
      cases item with
      | none =>
          unfold describe
          rw [hread]
          rfl
      | some item =>
          simp only [describe_of_item hread, ← lookupRessource_projects h, ← hostAnswer_projects h,
            ← ownerAnswer_projects h, Prod.map_fst, Prod.map_snd, id_eq, ← h.link]
          split
          · rfl
          · cases readService path.2 with
            | error fault => rfl
            | ok service => cases api.path ["definitions", item.table, "properties"] <;> rfl

theorem createRessource_projects (db : Database) (acc : AgentApi × τ) (path : String × Json) :
    (createRessource big db acc path).map (Prod.map id view) =
      createRessource small db (acc.map id view) path := by
  unfold createRessource
  dsimp only [Prod.map, id_eq]
  rw [← describe_projects h]
  cases describe big acc.1.api path acc.2 with
  | error fault => rfl
  | ok described =>
      obtain ⟨new, t⟩ := described
      cases new <;> rfl

theorem createRessources_projects (db : Database) (a : AgentApi) (t : τ) :
    (createRessources big db a t).map (Prod.map id view) =
      createRessources small db a (view t) := by
  unfold createRessources
  rw [← h.grab]
  obtain ⟨grabbed, t'⟩ := big.grab t
  cases grabbed with
  | false => rfl
  | true =>
      cases a.api.member "paths" with
      | error fault => rfl
      | ok paths => exact map_foldlM (Prod.map id view) (createRessource_projects h db) _ _

theorem addMissing_projects (table : String) (t : τ) (property : String × Json) :
    (addMissing big table t property).map view = addMissing small table (view t) property := by
  unfold addMissing
  rw [← h.tableHasColumn]
  obtain ⟨known, t'⟩ := big.tableHasColumn table property.1 t
  cases known with
  | true => rfl
  | false =>
      cases columnType property.2 with
      | error fault => rfl
      | ok type =>
          cases type with
          | none => rfl
          | some type => exact congrArg Except.ok (h.addColumn _ _ _)

theorem createTable_projects (t : τ) (definition : String × Json) :
    (createTable big t definition).map view = createTable small (view t) definition := by
  cases hskip : skipped definition with
  | error fault =>
      unfold createTable
      rw [hskip]
      rfl
  | ok skip =>
      cases skip with
      | true =>
          unfold createTable
          rw [hskip]
          rfl
      | false =>
          rw [createTable_of_not_skipped hskip, createTable_of_not_skipped hskip, ← h.haveTable]
          obtain ⟨known, t'⟩ := big.haveTable ("d$" ++ definition.1) t
          cases known with
          | true =>
              cases definition.2.member "properties" with
              | error fault => rfl
              | ok properties => exact map_foldlM view (addMissing_projects h _) _ _
          | false =>
              cases newColumns definition.2 with
              | error fault => rfl
              | ok columns => exact congrArg Except.ok (h.createTable _ _)

theorem createTables_projects (a : AgentApi) (t : τ) :
    (createTables big a t).map view = createTables small a (view t) := by
  unfold createTables
  rw [← h.grab]
  obtain ⟨grabbed, t'⟩ := big.grab t
  cases grabbed with
  | false => rfl
  | true =>
      cases a.definitions with
      | error fault => rfl
      | ok definitions => exact map_foldlM view (createTable_projects h) _ _

/-- An update on more tables is the update on those of `small`. -/
theorem updateApi_projects (db : Database) (reply : ApiReply) (a : AgentApi) (t : τ) :
    (updateApi big db reply a t).map (Prod.map id view) = updateApi small db reply a (view t) := by
  unfold updateApi
  cases reply with
  | unreachable => rfl
  | rejected left => cases left <;> rfl
  | document doc =>
      dsimp only
      rw [← createRessources_projects h]
      cases createRessources big db (a.read doc.value) t with
      | error fault => rfl
      | ok created =>
          obtain ⟨a', t'⟩ := created
          simp only [Except.map, Prod.map, id_eq, ok_bind]
          rw [← createTables_projects h]
          cases createTables big a' t' with
          | error fault => rfl
          | ok t'' =>
              simp only [Except.map, ok_bind]
              cases a'.erase <;> rfl

end projection

/-! ### All descriptions -/

theorem describeAll_cons_eq_ok {api : Json} {path : String × Json} :
    describeAll store api (path :: paths) s = .ok (news, s') ↔
      ∃ new m rest, describe store api path s = .ok (new, m) ∧
        describeAll store api paths m = .ok (rest, s') ∧ news = new.toList ++ rest := by
  constructor
  · intro h
    obtain ⟨⟨new, m⟩, hnew, h⟩ := bind_eq_ok.mp h
    obtain ⟨⟨rest, t⟩, hrest, h⟩ := bind_eq_ok.mp h
    cases h
    exact ⟨new, m, rest, hnew, hrest, rfl⟩
  · rintro ⟨new, m, rest, hnew, hrest, rfl⟩
    exact bind_eq_ok.mpr ⟨_, hnew, bind_eq_ok.mpr ⟨_, hrest, rfl⟩⟩

theorem describeAll_append_eq_ok {api : Json} {before after : List (String × Json)} :
    describeAll store api (before ++ after) s = .ok (news, s') ↔
      ∃ olds m rest, describeAll store api before s = .ok (olds, m) ∧
        describeAll store api after m = .ok (rest, s') ∧ news = olds ++ rest := by
  induction before generalizing s news with
  | nil =>
      constructor
      · intro h
        exact ⟨[], s, news, rfl, h, rfl⟩
      · rintro ⟨olds, m, rest, holds, hrest, rfl⟩
        cases holds
        exact hrest
  | cons path before ih =>
      rw [List.cons_append, describeAll_cons_eq_ok]
      constructor
      · rintro ⟨new, m, rest, hnew, hrest, rfl⟩
        obtain ⟨olds, n, last, holds, hlast, rfl⟩ := ih.mp hrest
        exact ⟨new.toList ++ olds, n, last,
          describeAll_cons_eq_ok.mpr ⟨new, m, olds, hnew, holds, rfl⟩, hlast, by simp⟩
      · rintro ⟨olds, n, last, holds, hlast, rfl⟩
        obtain ⟨new, m, rest, hnew, hrest, rfl⟩ := describeAll_cons_eq_ok.mp holds
        exact ⟨new, m, rest ++ last, hnew, ih.mpr ⟨rest, n, last, hrest, hlast, rfl⟩, by simp⟩

theorem describeAll_at {api : Json} {path : String × Json} (hpath : path ∈ paths)
    (h : describeAll store api paths s = .ok (news, s')) :
    ∃ before after olds m new t rest, paths = before ++ path :: after ∧
      describeAll store api before s = .ok (olds, m) ∧
      describe store api path m = .ok (new, t) ∧
      describeAll store api after t = .ok (rest, s') ∧ news = olds ++ (new.toList ++ rest) := by
  obtain ⟨before, after, rfl⟩ := List.append_of_mem hpath
  obtain ⟨olds, m, last, holds, hlast, rfl⟩ := describeAll_append_eq_ok.mp h
  obtain ⟨new, t, rest, hnew, hrest, rfl⟩ := describeAll_cons_eq_ok.mp hlast
  exact ⟨before, after, olds, m, new, t, rest, rfl, holds, hnew, hrest, rfl⟩

/-- A described client is described when the loop comes to its path. -/
theorem mem_describeAll {api : Json} (h : describeAll store api paths s = .ok (news, s'))
    {new : RessourceClient} : new ∈ news ↔
      ∃ before path after olds m t, paths = before ++ path :: after ∧
        describeAll store api before s = .ok (olds, m) ∧
        describe store api path m = .ok (some new, t) := by
  induction paths generalizing s news with
  | nil =>
      cases h
      simp
  | cons path paths ih =>
      obtain ⟨first, m, rest, hfirst, hrest, rfl⟩ := describeAll_cons_eq_ok.mp h
      rw [List.mem_append, Option.mem_toList, ih hrest]
      constructor
      · rintro (hnew | ⟨before, p, after, olds, n, t, rfl, holds, hp⟩)
        · cases Option.mem_def.mp hnew
          exact ⟨[], path, paths, [], s, m, rfl, rfl, hfirst⟩
        · exact ⟨path :: before, p, after, first.toList ++ olds, n, t, rfl,
            describeAll_cons_eq_ok.mpr ⟨first, m, olds, hfirst, holds, rfl⟩, hp⟩
      · rintro ⟨before, p, after, olds, n, t, heq, holds, hp⟩
        cases before with
        | nil =>
            cases holds
            cases heq
            rw [hfirst] at hp
            cases hp
            exact Or.inl rfl
        | cons q before =>
            cases heq
            obtain ⟨first', m', olds', hfirst', holds', rfl⟩ := describeAll_cons_eq_ok.mp holds
            rw [hfirst] at hfirst'
            cases hfirst'
            exact Or.inr ⟨before, p, after, olds', n, t, rfl, holds', hp⟩

theorem describeAll_sublist {api : Json} (h : describeAll store api paths s = .ok (news, s')) :
    (news.map RessourceClient.baseurl).Sublist (paths.map Prod.fst) := by
  induction paths generalizing s news with
  | nil =>
      cases h
      exact List.Sublist.refl _
  | cons path paths ih =>
      obtain ⟨new, m, rest, hnew, hrest, rfl⟩ := describeAll_cons_eq_ok.mp h
      cases new with
      | none => exact (ih hrest).cons _
      | some new =>
          rw [Option.toList_some, List.singleton_append, List.map_cons, List.map_cons,
            describe_baseurl hnew]
          exact (ih hrest).cons_cons _

/-! ### The whole update -/

/-- What the update on a document does: the descriptions if there is a connection, then the
tables, and the clients reconciled and those without a path erased. -/
structure Updates (store : Store σ) (db : Database) (doc : ApiDocument) (a : AgentApi) (s : σ)
    (a' : AgentApi) (s' : σ) (news : List RessourceClient) (s₁ : σ) : Prop where
  paths : (store.grab s).1 = true → Succeeds (doc.value.member "paths")
  described : (store.grab s).1 = true →
    describeAll store doc.value doc.paths (store.grab s).2 = .ok (news, s₁)
  notDescribed : (store.grab s).1 = false → news = [] ∧ s₁ = (store.grab s).2
  tables : ∃ a₁ : AgentApi, a₁.api = doc.value ∧ a₁.asked = news.map RessourceClient.table ∧
    createTables store a₁ s₁ = .ok s'
  api : a'.api = doc.value
  serial : a'.serial = a.serial + 1
  ressources : a'.ressources = (reconciled db (a.serial + 1) a.ressources news).filter fun b =>
    b.baseurl ∈ doc.paths.map Prod.fst

theorem entriesAt_of_member {v w : Json} {key : String} (h : v.member key = .ok w) :
    v.entriesAt key = w.entries := by
  rw [Json.entriesAt, h]

theorem erase_spec (h : a.erase = .ok a') :
    a' = { a with ressources := a.ressources.filter fun b =>
      b.baseurl ∈ (a.api.entriesAt "paths").map Prod.fst } := by
  rw [AgentApi.erase] at h
  split at h
  · next hempty =>
    cases h
    rw [List.isEmpty_iff.mp hempty]
    obtain ⟨api, serial, asked, ressources⟩ := a
    cases List.isEmpty_iff.mp hempty
    rfl
  · obtain ⟨w, hw, h⟩ := bind_eq_ok.mp h
    cases h
    rw [entriesAt_of_member hw]
    rfl

theorem createRessources_spec (h : createRessources store db a s = .ok (a', s')) :
    ∃ news, ((store.grab s).1 = true → Succeeds (a.api.member "paths")) ∧
      ((store.grab s).1 = true →
        describeAll store a.api (a.api.entriesAt "paths") (store.grab s).2 = .ok (news, s')) ∧
      ((store.grab s).1 = false → news = [] ∧ s' = (store.grab s).2) ∧
      a' = news.foldl (addRessource db) a := by
  rw [createRessources] at h
  generalize store.grab s = grab at h ⊢
  obtain ⟨grabbed, s₀⟩ := grab
  cases grabbed with
  | true =>
      obtain ⟨w, hw, h⟩ := bind_eq_ok.mp h
      rw [foldlM_createRessource, ← entriesAt_of_member hw] at h
      cases hall : describeAll store a.api (a.api.entriesAt "paths") s₀ with
      | error e =>
          rw [hall] at h
          cases h
      | ok r =>
          rw [hall] at h
          cases h
          exact ⟨r.1, fun _ => ⟨w, hw⟩, fun _ => rfl, fun hfalse => absurd hfalse (by simp), rfl⟩
  | false =>
      cases h
      exact ⟨[], fun htrue => absurd htrue (by simp), fun htrue => absurd htrue (by simp),
        fun _ => ⟨rfl, rfl⟩, rfl⟩

theorem updateApi_document (h : updateApi store db (.document doc) a s = .ok (a', s')) :
    ∃ news s₁, Updates store db doc a s a' s' news s₁ := by
  obtain ⟨⟨a₁, s₁⟩, hres, h⟩ := bind_eq_ok.mp h
  obtain ⟨s₂, htables, h⟩ := bind_eq_ok.mp h
  obtain ⟨a₂, herase, h⟩ := bind_eq_ok.mp h
  cases h
  obtain ⟨news, hpaths, hgrabbed, hnot, rfl⟩ := createRessources_spec hres
  rw [foldl_addRessource] at htables herase
  cases erase_spec herase
  exact ⟨news, s₁, hpaths, hgrabbed, hnot, ⟨_, rfl, rfl, htables⟩, rfl, rfl, rfl⟩

/-- An update on a document if there is always a connection: the loop over the paths, the tables, and
the clients of the paths. -/
theorem updateApi_loop (hgrab : ∀ s, store.grab s = (true, s))
    (h : updateApi store db (.document doc) a s = .ok (a', s')) :
    ∃ a₁ s₁, doc.paths.foldlM (createRessource store db) (a.read doc.value, s) = .ok (a₁, s₁) ∧
      createTables store a₁ s₁ = .ok s' ∧ ∀ b ∈ a'.ressources, b ∈ a₁.ressources := by
  obtain ⟨⟨a₁, s₁⟩, hres, h⟩ := bind_eq_ok.mp h
  obtain ⟨s₂, htables, h⟩ := bind_eq_ok.mp h
  obtain ⟨a₂, herase, h⟩ := bind_eq_ok.mp h
  cases h
  refine ⟨a₁, s₁, ?_, htables, ?_⟩
  · rw [createRessources, hgrab] at hres
    obtain ⟨paths, hpaths, hloop⟩ := bind_eq_ok.mp hres
    have hentries : doc.paths = paths.entries := entriesAt_of_member hpaths
    rw [hentries]
    exact hloop
  · intro b hb
    rw [erase_spec herase] at hb
    exact (List.mem_filter.mp hb).1

/-- An update that is no document leaves the clients and the tables alone. -/
theorem updateApi_other {reply : ApiReply} (h : updateApi store db reply a s = .ok (a', s')) :
    (∃ doc, reply = .document doc) ∨
      (∀ doc, reply ≠ .document doc) ∧ a'.ressources = a.ressources ∧ s' = s := by
  cases reply with
  | document doc => exact Or.inl ⟨doc, rfl⟩
  | unreachable =>
      cases h
      exact Or.inr ⟨by simp, rfl, rfl⟩
  | rejected left =>
      cases left with
      | none =>
          cases h
          exact Or.inr ⟨by simp, rfl, rfl⟩
      | some left =>
          cases h
          exact Or.inr ⟨by simp, rfl, rfl⟩

theorem Updates.nodup {s₁ : σ} (h : Updates store db doc a s a' s' news s₁) :
    (news.map RessourceClient.baseurl).Nodup := by
  cases hgrab : (store.grab s).1 with
  | true => exact (describeAll_sublist (h.described hgrab)).nodup doc.distinct
  | false =>
      rw [(h.notDescribed hgrab).1]
      exact List.nodup_nil

theorem Updates.baseurl_mem {s₁ : σ} (h : Updates store db doc a s a' s' news s₁)
    {new : RessourceClient} (hnew : new ∈ news) : new.baseurl ∈ doc.paths.map Prod.fst := by
  cases hgrab : (store.grab s).1 with
  | true => exact (describeAll_sublist (h.described hgrab)).subset (List.mem_map_of_mem hnew)
  | false =>
      rw [(h.notDescribed hgrab).1] at hnew
      cases hnew

/-- Clients after the update: those kept, each after the description of its path, and the new. -/
theorem Updates.mem_ressources {s₁ : σ} (h : Updates store db doc a s a' s' news s₁)
    {b : BoundClient} : b ∈ a'.ressources ↔
      (∃ c ∈ a.ressources, c.baseurl ∈ doc.paths.map Prod.fst ∧ c.after (a.serial + 1) news = b) ∨
      ∃ new ∈ news, new.baseurl ∉ a.ressources.map BoundClient.baseurl ∧
        BoundClient.fresh db (a.serial + 1) new = b := by
  have hkeeps := keepsKeys db (a.serial + 1)
  rw [h.ressources, reconciled, upsertAll_eq hkeeps h.nodup, List.mem_filter, List.mem_append,
    List.mem_map, List.mem_map, decide_eq_true_eq]
  constructor
  · rintro ⟨⟨c, hc, rfl⟩ | ⟨new, hnew, rfl⟩, hpath⟩
    · rw [hkeeps.refreshed] at hpath
      exact Or.inl ⟨c, hc, hpath, rfl⟩
    · obtain ⟨hmem, hnot⟩ := mem_added.mp hnew
      exact Or.inr ⟨new, hmem, hnot, rfl⟩
  · rintro (⟨c, hc, hpath, rfl⟩ | ⟨new, hmem, hnot, rfl⟩)
    · rw [BoundClient.after_baseurl]
      exact ⟨Or.inl ⟨c, hc, rfl⟩, hpath⟩
    · have hpath : new.baseurl ∈ doc.paths.map Prod.fst := h.baseurl_mem hmem
      exact ⟨Or.inr ⟨new, mem_added.mpr ⟨hmem, hnot⟩, rfl⟩, hpath⟩

/-- A described client has the table of its path, and the properties of it. -/
theorem Description.definition {api : Json} {path : String × Json} {new : RessourceClient}
    (h : Description store api path s (some new) s') :
    api.path ["definitions", new.table, "properties"] = .ok new.definition := by
  cases h with
  | client item service definition hpath hid hservice hdef => exact hdef

theorem Updates.definition {s₁ : σ} (h : Updates store db doc a s a' s' news s₁) {new : RessourceClient}
    (hnew : new ∈ news) :
    doc.value.path ["definitions", new.table, "properties"] = .ok new.definition := by
  cases hgrab : (store.grab s).1 with
  | true =>
      obtain ⟨before, path, after, olds, m, t, -, -, hdesc⟩ :=
        (mem_describeAll (h.described hgrab)).mp hnew
      exact (describe_description hdesc).definition
  | false =>
      rw [(h.notDescribed hgrab).1] at hnew
      cases hnew

/-- The same document makes the described clients those of a new agent. -/
theorem Updates.of_new {s₁ : σ} (h : Updates store db doc a s a' s' news s₁)
    (hgrab : (store.grab s).1 = true) :
    ∃ f, updateApi store db (.document doc) .new s = .ok (f, s') ∧
      f.ressources = news.map (BoundClient.fresh db 1) := by
  obtain ⟨w, hw⟩ := h.paths hgrab
  obtain ⟨a₁, hapi, hasked, htables⟩ := h.tables
  let f₁ : AgentApi := ⟨doc.value, 1, news.map RessourceClient.table, news.map (.fresh db 1)⟩
  have hnew : reconciled db 1 [] news = news.map (BoundClient.fresh db 1) := by
    rw [reconciled, upsertAll_eq (keepsKeys db 1) h.nodup]
    simp [added]
  have hfold : news.foldl (addRessource db) (AgentApi.new.read doc.value) = f₁ := by
    rw [foldl_addRessource]
    simp only [AgentApi.read, AgentApi.new, List.nil_append, Nat.zero_add, hnew]
    rfl
  have hres : createRessources store db (AgentApi.new.read doc.value) s = .ok (f₁, s₁) := by
    have hall := h.described hgrab
    rw [createRessources]
    generalize store.grab s = grab at hgrab hall
    obtain ⟨grabbed, s₀⟩ := grab
    cases hgrab
    refine bind_eq_ok.mpr ⟨w, hw, ?_⟩
    rw [foldlM_createRessource, ← entriesAt_of_member hw]
    dsimp only at hall
    rw [ApiDocument.paths] at hall
    have hread : (AgentApi.new.read doc.value).api = doc.value := rfl
    rw [hread, hall, ← hfold]
    rfl
  have hsame : createTables store f₁ s₁ = createTables store a₁ s₁ := by
    rw [createTables, createTables, AgentApi.definitions, AgentApi.definitions, hapi, hasked]
  refine ⟨{ f₁ with ressources := f₁.ressources.filter fun b =>
    b.client.baseurl ∈ (doc.value.entriesAt "paths").map Prod.fst }, ?_, ?_⟩
  · refine bind_eq_ok.mpr ⟨_, hres, bind_eq_ok.mpr ⟨s', hsame.trans htables, ?_⟩⟩
    refine bind_eq_ok.mpr ⟨_, ?_, rfl⟩
    rw [AgentApi.erase]
    split
    · next hempty =>
      rw [List.isEmpty_iff.mp hempty]
      simp only [List.filter_nil]
      rw [← List.isEmpty_iff.mp hempty]
    · refine bind_eq_ok.mpr ⟨w, hw, ?_⟩
      rw [entriesAt_of_member hw]
      rfl
  · apply List.filter_eq_self.mpr
    intro b hb
    obtain ⟨new, hmem, rfl⟩ := List.mem_map.mp hb
    have hpath : new.baseurl ∈ doc.paths.map Prod.fst := h.baseurl_mem hmem
    exact decide_eq_true hpath

end update

end WatchedBack
