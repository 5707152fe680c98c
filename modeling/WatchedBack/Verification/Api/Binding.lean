import WatchedBack.Verification.Api.Update

/-! # Clients and the document they point into

Each reading of `api` leaves every pointer into it dangling, and only `updateDefs` points anew. -/

namespace WatchedBack

open Fallible Reconcile

section binding

variable {σ : Type} (store : Store σ)

/-- `def` points to the properties of the client's table in what `api` holds. -/
structure BoundTo (a : AgentApi) (b : BoundClient) : Prop where
  serial : b.serial = a.serial
  defName : b.defName = b.client.table
  definition :
    a.api.path ["definitions", b.client.table, "properties"] = .ok b.client.definition

def AgentApi.Bound (a : AgentApi) : Prop := ∀ b ∈ a.ressources, BoundTo a b

/-- The server has an id for the resource when the loop comes to its path. -/
def Served (doc : ApiDocument) (s : σ) (path : String × Json) (item : PathItem) : Prop :=
  ∃ before after olds m, doc.paths = before ++ path :: after ∧
    describeAll store doc.value before (store.grab s).2 = .ok (olds, m) ∧
    (lookupRessource store item m).1 ≠ 0

/-- There is a connection, and the path of the client is one of a resource of its table for which
the server has an id. -/
structure Rebinds (doc : ApiDocument) (s : σ) (b : BoundClient) : Prop where
  grabbed : (store.grab s).1 = true
  ressource : ∃ path item, path.1 = b.baseurl ∧ readPath path = .ok (some item) ∧
    item.table = b.client.table ∧ Served store doc s path item

/-- What a call must be for the clients to stay bound. -/
def Rebinding (a : AgentApi) (call : ServerCall σ) : Prop :=
  match call.reply with
  | .unreachable => True
  | .rejected none => True
  | .rejected (some _) => a.ressources = []
  | .document doc => ∀ b ∈ a.ressources, b.baseurl ∈ doc.paths.map Prod.fst →
      Rebinds store doc call.server b

/-- No client points into a document that is still to come. -/
def AgentApi.Past (a : AgentApi) : Prop := ∀ b ∈ a.ressources, b.serial ≤ a.serial

variable {store} {db : Database} {a a' : AgentApi} {s s' s₁ : σ} {news : List RessourceClient}
  {doc : ApiDocument} {b : BoundClient} {call : ServerCall σ}

/-! ### One document -/

/-- A client is bound anew to its own table exactly when its path is described with it. -/
theorem Updates.rebinds_iff (h : Updates store db doc a s a' s' news s₁) :
    Rebinds store doc s b ↔ ∃ new ∈ news, new.baseurl = b.baseurl ∧ new.table = b.client.table := by
  constructor
  · rintro ⟨hgrab, path, item, hurl, hpath, htable, before, after, olds, m, heq, holds, hid⟩
    have hall := h.described hgrab
    rw [heq] at hall
    obtain ⟨olds', m', rest, holds', hrest, rfl⟩ := describeAll_append_eq_ok.mp hall
    rw [holds] at holds'
    cases holds'
    obtain ⟨new, t, rest, hnew, hrest, rfl⟩ := describeAll_cons_eq_ok.mp hrest
    cases describe_description hnew with
    | other hother =>
        rw [hpath] at hother
        cases hother
    | unknown item' hpath' hid' =>
        rw [hpath] at hpath'
        cases hpath'
        exact absurd hid' hid
    | client item' service definition hpath' hid' hservice hdef =>
        rw [hpath] at hpath'
        cases hpath'
        exact ⟨.make (ownerAnswer store item service m).1 (lookupRessource store item m).1 path.1
          item.table service definition, by simp, hurl, htable⟩
  · rintro ⟨new, hnew, hurl, htable⟩
    cases hgrab : (store.grab s).1 with
    | true =>
        refine ⟨hgrab, ?_⟩
        obtain ⟨before, path, after, olds, m, t, heq, holds, hdesc⟩ :=
          (mem_describeAll (h.described hgrab)).mp hnew
        rw [← hurl, ← htable]
        cases describe_description hdesc with
        | client item service definition hpath hid hservice hdef =>
            exact ⟨path, item, rfl, hpath, rfl, before, after, olds, m, heq, holds, hid⟩
    | false =>
        rw [(h.notDescribed hgrab).1] at hnew
        cases hnew

/-- After a document every client is bound exactly if it binds each client that it keeps. -/
theorem Updates.bound_iff (h : Updates store db doc a s a' s' news s₁) (ha : a.Past) :
    a'.Bound ↔ ∀ b ∈ a.ressources, b.baseurl ∈ doc.paths.map Prod.fst → Rebinds store doc s b := by
  constructor
  · intro hbound b hb hpath
    have hafter := hbound _ (h.mem_ressources.mpr (Or.inl ⟨b, hb, hpath, rfl⟩))
    rcases BoundClient.after_cases (a.serial + 1) news b with ⟨new, hnew, hurl, heq⟩ | ⟨-, heq⟩
    · rw [heq] at hafter
      exact h.rebinds_iff.mpr ⟨new, hnew, hurl, hafter.defName⟩
    · -- a client that is not bound anew still points into an earlier document
      rw [heq] at hafter
      have hserial := hafter.serial
      rw [h.serial] at hserial
      exact absurd (ha b hb) (by omega)
  · intro hall b hb
    rcases h.mem_ressources.mp hb with ⟨c, hc, hpath, rfl⟩ | ⟨new, hnew, -, rfl⟩
    · obtain ⟨new, hnew, hurl, htable⟩ := h.rebinds_iff.mp (hall c hc hpath)
      have hdef := h.definition hnew
      rw [BoundClient.after, refreshed_of_mem h.nodup hnew hurl]
      rw [htable, ← h.api] at hdef
      exact ⟨h.serial.symm, htable, hdef⟩
    · have hdef := h.definition hnew
      rw [← h.api] at hdef
      exact ⟨h.serial.symm, rfl, hdef⟩

theorem Updates.past (h : Updates store db doc a s a' s' news s₁) (ha : a.Past) : a'.Past := by
  intro b hb
  rw [h.serial]
  rcases h.mem_ressources.mp hb with ⟨c, hc, -, rfl⟩ | ⟨new, -, -, rfl⟩
  · rcases BoundClient.after_cases (a.serial + 1) news c with ⟨new, -, -, heq⟩ | ⟨-, heq⟩
    · rw [heq]
      exact le_refl _
    · rw [heq]
      exact Nat.le_succ_of_le (ha c hc)
  · exact le_refl _

/-! ### One call -/

theorem update_eq_ok (h : a.update store call = .ok a') :
    ∃ s', updateApi store call.db call.reply a call.server = .ok (a', s') := by
  obtain ⟨⟨a₁, s₁⟩, hupdate, h⟩ := bind_eq_ok.mp h
  cases h
  exact ⟨s₁, hupdate⟩

theorem update_past (ha : a.Past) (h : a.update store call = .ok a') : a'.Past := by
  obtain ⟨s', h⟩ := update_eq_ok h
  cases hreply : call.reply with
  | unreachable =>
      rw [hreply] at h
      cases h
      exact ha
  | rejected left =>
      rw [hreply] at h
      cases left with
      | none =>
          cases h
          exact ha
      | some left =>
          cases h
          exact fun b hb => Nat.le_succ_of_le (ha b hb)
  | document doc =>
      rw [hreply] at h
      obtain ⟨news, s₁, hupdates⟩ := updateApi_document h
      exact hupdates.past ha

theorem update_bound_iff (ha : a.Past) (hbound : a.Bound) (h : a.update store call = .ok a') :
    a'.Bound ↔ Rebinding store a call := by
  obtain ⟨s', h⟩ := update_eq_ok h
  rw [Rebinding]
  cases hreply : call.reply with
  | unreachable =>
      rw [hreply] at h
      cases h
      exact iff_of_true hbound trivial
  | rejected left =>
      rw [hreply] at h
      cases left with
      | none =>
          cases h
          exact iff_of_true hbound trivial
      | some left =>
          cases h
          constructor
          · intro hafter
            apply List.eq_nil_iff_forall_not_mem.mpr
            intro b hb
            have hserial : b.serial = a.serial + 1 := (hafter b hb).serial
            exact absurd (ha b hb) (by omega)
          · intro hnil b hb
            have hmem : b ∈ a.ressources := hb
            rw [hnil] at hmem
            cases hmem
  | document doc =>
      rw [hreply] at h
      obtain ⟨news, s₁, hupdates⟩ := updateApi_document h
      exact hupdates.bound_iff ha

/-! ### Every run -/

/-- In every state of a run each client is bound to its table's properties in the document that
`api` holds, exactly if no call of the run leaves a client behind. -/
theorem clients_bound_iff (store : Store σ) (calls : List (ServerCall σ))
    (hrun : Succeeds (calls.foldlM (AgentApi.update store) .new)) :
    Always (AgentApi.update store) AgentApi.Bound .new calls ↔
      EachStep (AgentApi.update store) (Rebinding store) .new calls := by
  apply always_iff_eachStep AgentApi.Past
  · intro a call a' ha h
    exact update_past ha h
  · intro a call a' ha hbound h
    exact update_bound_iff ha hbound h
  · intro b hb
    cases hb
  · intro b hb
    cases hb
  · exact hrun

end binding

/-! ### The disk of a host -/

def diskCall (doc : ApiDocument) : ServerCall Catalog := ⟨emptyDatabase, emptyCatalog, .document doc⟩

/-- The second document describes the disk by integers, and the client is bound anew. -/
theorem clients_bound_disk :
    Always (AgentApi.update (Catalog.store .binary)) AgentApi.Bound .new
      [diskCall (diskDoc "disk"), diskCall (diskDocOf "disk" (oneProperty "pctfree" "integer"))] := by
  have hrun : Succeeds ([diskCall (diskDoc "disk"),
      diskCall (diskDocOf "disk" (oneProperty "pctfree" "integer"))].foldlM
        (AgentApi.update (Catalog.store .binary)) .new) :=
    succeeds_of_isSome (by decide +kernel)
  have hfirst : ((AgentApi.update (Catalog.store .binary) .new (diskCall (diskDoc "disk"))).toOption.map
      fun a => a.ressources.map fun b => (b.baseurl, b.client.table)) =
        some [("/system/disk/history", "disk")] := by
    decide +kernel
  obtain ⟨a, ha, hclients⟩ := exists_ok_of_toOption_map hfirst
  refine (clients_bound_iff _ _ hrun).mpr ((eachStep_cons ha).mpr ⟨?_, eachStep_singleton.mpr ?_⟩)
  · intro b hb
    cases hb
  · intro b hb _
    have hclient := List.mem_map_of_mem (f := fun b : BoundClient => (b.baseurl, b.client.table)) hb
    rw [hclients, List.mem_singleton] at hclient
    obtain ⟨hurl, htable⟩ := Prod.mk.inj hclient
    refine ⟨rfl, ("/system/disk/history", getterPath "#/definitions/disk" [("x-host", .str "web")]),
      ⟨"host", "disk", "disk", "web"⟩, hurl.symm, ?_, htable.symm, [], [], [], emptyCatalog, rfl, rfl, ?_⟩
    · exact eq_ok_of_toOption (by decide +kernel)
    · decide +kernel

/-- The getter of a path goes and the path stays: its client points into the old document. -/
theorem closed_disk_unbound :
    ∃ a, [diskCall (diskDoc "disk"), diskCall diskClosed].foldlM
        (AgentApi.update (Catalog.store .binary)) .new = .ok a ∧ ¬ a.Bound := by
  have hrun : (([diskCall (diskDoc "disk"), diskCall diskClosed].foldlM
      (AgentApi.update (Catalog.store .binary)) .new).toOption.map fun a =>
        (a.serial, a.ressources.map BoundClient.serial)) = some (2, [1]) := by
    decide +kernel
  obtain ⟨a, ha, heq⟩ := exists_ok_of_toOption_map hrun
  obtain ⟨hserial, hclients⟩ := Prod.mk.inj heq
  refine ⟨a, ha, fun hbound => ?_⟩
  obtain ⟨b, hb, hone⟩ := List.mem_map.mp (hclients ▸ List.mem_singleton_self 1)
  have hb := (hbound b hb).serial
  omega

end WatchedBack
