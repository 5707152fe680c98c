import WatchedBack.Verification.Collect.Services

/-! # Which replies `collect` handles

A reply is handled whatever the database holds exactly when every value that the loops read
has the type of its conversion, and the path of every client is long enough. -/

namespace WatchedBack

open Fallible

/-! ### Lines -/

section lines

variable {c : RessourceClient} {line : Json} {s s' : ParseState} {e : ResEvent} {p : String}

/-- Where every insert fails, an event under another id than 0 that the line does not end
stays open, and its property is read. -/
theorem parseLine_watch {k : ℕ} (hk : k ≠ 0) (he : s.currentEvents[k]? = some e)
    (hv : e.verdict line ≠ some false) (h : parseLine c (fun _ => .failed) line s = .ok s') :
    s'.currentEvents[k]? = some e ∧ e.Readable line := by
  obtain ⟨opened, closed, ho, hcl, stmt, rfl⟩ := parseLine_cases h
  have hopened : opened.currentEvents[k]? = some e := by
    refine foldlM_invariant (fun t => t.currentEvents[k]? = some e) ?_ he ho
    intro t t' f _ ht hf
    rcases openEvent_cases hf with ⟨-, rfl⟩ | ⟨-, -, current, rfl⟩ | ⟨-, -, ts, current, value, rfl⟩
    · exact ht
    · exact ht
    · change (t.currentEvents.insert 0 f)[k]? = some e
      rw [Std.ExtTreeMap.getElem?_insert, if_neg (by rwa [compare_eq_iff_eq, eq_comm]), ht]
  have hentry (entry) (hmem : entry ∈ opened.currentEvents.toList) :
      opened.currentEvents[entry.1]? = some entry.2 :=
    Std.ExtTreeMap.mem_toList_iff_getElem?_eq_some.mp hmem
  have hclosed := foldlM_forall (fun t : ParseState => t.currentEvents[k]? = some e)
    (fun entry : ℕ × ResEvent => entry.2.Readable line) ?_ hopened hcl
  · exact ⟨hclosed.1, hclosed.2 (k, e) (Std.ExtTreeMap.mem_toList_iff_getElem?_eq_some.mpr hopened)⟩
  · intro t t' entry hmem ht hf
    refine ⟨?_, (closeEvent_succeeds_iff.mp ⟨t', hf⟩).1⟩
    rcases closeEvent_cases hf with ⟨-, rfl⟩ | ⟨hend, ts, rfl⟩
    · exact ht
    · have hne : entry.1 ≠ k := by
        rintro rfl
        have hsame : entry.2 = e := by
          have := (hentry entry hmem).symm.trans hopened
          simpa using this
        exact hv (hsame ▸ hend)
      change (t.currentEvents.erase entry.1)[k]? = some e
      rw [Std.ExtTreeMap.getElem?_erase, if_neg (by rwa [compare_eq_iff_eq]), ht]

/-- A bound above everything that the lines carry under a property. -/
theorem exists_readings_lt (lines : List Json) (p : String) :
    ∃ B, ∀ line ∈ lines, ∀ x, line.reading p = some x → x < B := by
  induction lines with
  | nil => exact ⟨0, by simp⟩
  | cons line lines ih =>
      obtain ⟨B, hB⟩ := ih
      refine ⟨max B ((line.reading p).getD 0 + 1), ?_⟩
      intro l hl x hx
      rcases List.mem_cons.mp hl with rfl | hl
      · rw [hx]
        exact lt_max_of_lt_right (lt_add_one x)
      · exact lt_max_of_lt_left (hB l hl x hx)

/-- An event that no line ends. -/
def watch (p : String) (B : ℚ) : ResEvent := ⟨0, p, '<', B⟩

theorem watch_known (p : String) (B : ℚ) : (watch p B).known := Or.inl rfl

theorem watch_verdict {B : ℚ} (h : ∀ x, line.reading p = some x → x < B) :
    (watch p B).verdict line ≠ some false := by
  rw [ResEvent.verdict, if_pos (watch_known p B)]
  change (line.reading p).map _ ≠ _
  cases hr : line.reading p with
  | none => simp
  | some x => simp [ResEvent.satisfiedBy, watch, h x hr]

theorem convertible_of_readable {B : ℚ} (h : (watch p B).Readable line) : line.Convertible p := by
  obtain ⟨v, hv⟩ := Json.member_succeeds_iff.mpr h.1
  refine ⟨v, hv, ?_⟩
  cases hnull : v.isNull with
  | true =>
      cases v with
      | null => exact ⟨0, rfl⟩
      | _ => cases hnull
  | false =>
      have hcarried : line.carried p = some v := by
        rw [Json.carried_of_member hv, hnull]
        rfl
      exact h.2 (watch_known p B) v hcarried

/-- Only lines of numbers are parsed whatever events are open. -/
theorem convertible_of_parse {data : Json} {B : ℚ}
    (hB : ∀ line ∈ data.elements, ∀ x, line.reading p = some x → x < B)
    (he : s.currentEvents[1]? = some (watch p B))
    (h : parse c (fun _ => .failed) s data = .ok s') : ∀ line ∈ data.elements, line.Convertible p :=
  (foldlM_forall (fun t : ParseState => t.currentEvents[1]? = some (watch p B))
    (fun line => line.Convertible p) (fun _ _ l hl ht hf =>
      have hw := parseLine_watch one_ne_zero ht (watch_verdict (hB l hl)) hf
      ⟨hw.1, convertible_of_readable hw.2⟩) he h).2

end lines

/-! ### Clients -/

namespace RessourceClient

variable {c : RessourceClient} {data w : Json}

/-- How many pieces of its path a client reads. -/
def depth (c : RessourceClient) : ℕ := if c.isService then 5 else 4

/-- Where a client looks for its part of a reply. -/
def nodePath (c : RessourceClient) : List String :=
  let strings := pieces c.baseurl
  if c.isService then
    ["services", c.servName, "collectors", strings.getD 3 "", strings.getD 4 ""]
  else
    ["system", strings.getD 2 "", strings.getD 3 ""]

theorem pieceAt_eq_ok {strings : List String} {i : ℕ} {s : String} :
    pieceAt strings i = .ok s ↔ i < strings.length ∧ s = strings.getD i "" := by
  unfold pieceAt
  rcases Nat.lt_or_ge i strings.length with h | h
  · simp [h, eq_comm]
  · simp [Nat.not_lt.mpr h]

theorem node_eq_ok : c.node data = .ok w ↔
    c.depth ≤ (pieces c.baseurl).length ∧ data.path c.nodePath = .ok w := by
  unfold node depth nodePath
  cases c.isService with
  | true =>
      simp only [if_true, bind_eq_ok, pieceAt_eq_ok, Json.path_cons, Json.path_nil]
      constructor
      · rintro ⟨a, ha, b, hb, d, hd, s3, ⟨h3, rfl⟩, x, hx, s4, ⟨h4, rfl⟩, hw⟩
        exact ⟨h4, a, ha, b, hb, d, hd, x, hx, w, hw, rfl⟩
      · rintro ⟨h4, a, ha, b, hb, d, hd, x, hx, y, hy, hw⟩
        cases hw
        exact ⟨a, ha, b, hb, d, hd, _, ⟨by omega, rfl⟩, x, hx, _, ⟨by omega, rfl⟩, hy⟩
  | false =>
      simp only [Bool.false_eq_true, if_false, bind_eq_ok, pieceAt_eq_ok, Json.path_cons,
        Json.path_nil]
      constructor
      · rintro ⟨a, ha, s2, ⟨h2, rfl⟩, b, hb, s3, ⟨h3, rfl⟩, hw⟩
        exact ⟨h3, a, ha, b, hb, w, hw, rfl⟩
      · rintro ⟨h3, a, ha, b, hb, y, hy, hw⟩
        cases hw
        exact ⟨a, ha, _, ⟨by omega, rfl⟩, b, hb, _, ⟨by omega, rfl⟩, hy⟩

end RessourceClient

/-- A client whose path is long enough, and its part of the reply is readable and made of
lines of numbers. -/
structure ClientOk (data : Json) (c : RessourceClient) : Prop where
  pieces : c.depth ≤ (pieces c.baseurl).length
  readable : Succeeds (data.path c.nodePath)
  numeric : ∀ line ∈ data.elementsAt c.nodePath, line.Numeric

section clients

variable {c : RessourceClient} {answers : ℕ → Answer} {data : Json}
  {acc acc' : List RessourceClient × ParseState}

theorem collectRessource_of_clientOk (h : ClientOk data c) (m : EventMap) :
    Succeeds (collectRessource answers data acc { c with currentEvents := m }) := by
  obtain ⟨w, hw⟩ := h.readable
  have hnode : RessourceClient.node { c with currentEvents := m } data = .ok w :=
    RessourceClient.node_eq_ok.mpr ⟨h.pieces, hw⟩
  have hlines : ∀ line ∈ w.elements, line.Numeric := Json.elementsAt_of_path hw ▸ h.numeric
  refine succeeds_bind_of ⟨w, hnode⟩ fun v hv => ?_
  cases hnode.symm.trans hv
  exact succeeds_bind_of (parseLines_of_numeric hlines) fun s _ => succeeds_ok _

/-- A client whose part of the reply is handled with every event open. -/
theorem clientOk_of_collectRessource
    (h : ∀ m : EventMap, ∃ acc, Succeeds
      (collectRessource (fun _ => .failed) data acc { c with currentEvents := m })) :
    ClientOk data c := by
  have hread (m : EventMap) : ∃ w, c.node data = .ok w ∧ ∃ s s' : ParseState,
      s.currentEvents = m ∧
        parse { c with currentEvents := m } (fun _ => .failed) s w = .ok s' := by
    obtain ⟨acc, hacc⟩ := h m
    obtain ⟨w, hw, hparse⟩ := succeeds_bind.mp hacc
    obtain ⟨s', hs', -⟩ := succeeds_bind.mp hparse
    exact ⟨w, hw, _, s', rfl, hs'⟩
  obtain ⟨w, hw, -⟩ := hread ∅
  obtain ⟨hpieces, hpath⟩ := RessourceClient.node_eq_ok.mp hw
  refine ⟨hpieces, ⟨w, hpath⟩, ?_⟩
  rw [Json.elementsAt_of_path hpath]
  intro line hline p
  obtain ⟨B, hB⟩ := exists_readings_lt w.elements p
  obtain ⟨v, hv, s, s', hs, hparse⟩ := hread ((∅ : EventMap).insert 1 (watch p B))
  cases hw.symm.trans hv
  refine convertible_of_parse hB ?_ hparse line hline
  rw [hs, Std.ExtTreeMap.getElem?_insert_self]

end clients

/-! ### The reply -/

/-- A reply of the types that `collect` reads, for some clients. -/
structure ReplyOk (data : Json) (clients : List RessourceClient) : Prop where
  timestamp : data.Convertible "timestamp"
  services : ∀ v ∈ data.elementsAt ["services"], ServiceOk v
  clients : ∀ c ∈ clients, ClientOk data c

/-- The clients of an agent, with the given open events. -/
def withEvents (openEvents : RessourceClient → EventMap) (clients : List RessourceClient) :
    List RessourceClient :=
  clients.map fun c => { c with currentEvents := openEvents c }

/-- `collect` returns normally, whatever the database holds and answers, and whichever events
are open. -/
def Returns (data : Json) (clients : List RessourceClient) : Prop :=
  ∀ (col : Collation) (carried : ℕ → Bool) (answers : ℕ → Answer) (fp since : ℚ) (grabbed : Bool)
    (openEvents : RessourceClient → EventMap) (tables : ServiceTables) (db : Database),
    Succeeds (collect col carried answers fp (some data) grabbed
      ⟨since, withEvents openEvents clients⟩ tables db)

section reply

variable {data : Json} {clients : List RessourceClient}

theorem returns_of_replyOk (h : ReplyOk data clients) : Returns data clients := by
  intro col carried answers fp since grabbed openEvents tables db
  obtain ⟨ts, hts, hnum⟩ := h.timestamp
  refine succeeds_bind_of ⟨ts, hts⟩ fun v hv => ?_
  cases hts.symm.trans hv
  refine succeeds_bind_of hnum fun since' _ => ?_
  cases grabbed with
  | false => exact succeeds_ok _
  | true =>
      obtain ⟨services, hservices⟩ := Json.member_of_member hts "services"
      have hpath := Json.elementsAt_of_path (Json.path_singleton.trans hservices)
      refine succeeds_bind_of ⟨services, hservices⟩ fun v hv => ?_
      cases hservices.symm.trans hv
      refine succeeds_bind_of (succeeds_foldlM (fun acc service hmem => ?_) _) fun acc _ => ?_
      · exact collectService_of_serviceOk
          (h.services service.2 (hpath ▸ List.mem_map_of_mem hmem))
      · refine succeeds_bind_of (succeeds_foldlM (fun acc c hmem => ?_) _) fun acc _ => succeeds_ok _
        obtain ⟨c, hc, rfl⟩ := List.mem_map.mp hmem
        exact collectRessource_of_clientOk (h.clients c hc) (openEvents c)

/-- What a run over the empty database shows of a reply. -/
theorem replyOk_of_run (openEvents : RessourceClient → EventMap) (h : Succeeds
    (collect Collation.binary nothing (fun _ => .failed) 0 (some data) true
      ⟨0, withEvents openEvents clients⟩ noServices emptyDatabase)) :
    data.Convertible "timestamp" ∧ (∀ v ∈ data.elementsAt ["services"], ServiceOk v) ∧
      ∀ c ∈ clients, ∃ acc, Succeeds (collectRessource (fun _ => .failed) data acc
        { c with currentEvents := openEvents c }) := by
  obtain ⟨ts, hts, h⟩ := succeeds_bind.mp h
  obtain ⟨since, hsince, h⟩ := succeeds_bind.mp h
  obtain ⟨services, hservices, h⟩ := succeeds_bind.mp h
  obtain ⟨acc, hacc, h⟩ := succeeds_bind.mp h
  obtain ⟨parsed, hparsed, -⟩ := succeeds_bind.mp h
  refine ⟨⟨ts, hts, since, hsince⟩, ?_, fun c hc => ?_⟩
  · rw [Json.elementsAt_of_path (Json.path_singleton.trans hservices)]
    have hloop := (foldlM_forall (fun acc : Round × List ℕ => acc.1.Empty)
      (fun service : String × Json => ServiceOk service.2)
      (fun _ _ _ _ he hf => collectService_nothing he hf) ⟨rfl, rfl, rfl⟩ hacc).2
    intro v hv
    obtain ⟨service, hmem, rfl⟩ := List.mem_map.mp hv
    exact hloop service hmem
  · have hloop := (foldlM_forall (fun _ => True)
      (fun c => ∃ acc, Succeeds (collectRessource (fun _ => .failed) data acc c))
      (fun acc acc' _ _ _ hf => ⟨trivial, acc, acc', hf⟩) trivial hparsed).2
    exact hloop _ (List.mem_map_of_mem hc)

/-- `collect` returns normally from every reply of the right types, and from no other. -/
theorem collect_returns_iff : Returns data clients ↔ ReplyOk data clients := by
  refine ⟨fun h => ?_, returns_of_replyOk⟩
  have hrun (openEvents : RessourceClient → EventMap) :=
    replyOk_of_run openEvents (h Collation.binary nothing (fun _ => .failed) 0 0 true openEvents
      noServices emptyDatabase)
  obtain ⟨hts, hservices, -⟩ := hrun fun _ => ∅
  refine ⟨hts, hservices, fun c hc => clientOk_of_collectRessource fun m => ?_⟩
  exact (hrun fun _ => m).2.2 c hc

end reply

/-- The client of a path that `createRessources` accepts although it names no collector. -/
def bareServiceClient : RessourceClient :=
  { diskClient with
    isService := true
    baseurl := "/service/x/history"
    servName := "x" }

/-- An array in place of the reply, and a path of four pieces for five. -/
theorem array_reply_escapes :
    ¬ Returns (.arr []) [] ∧ ¬ Returns (.obj [("timestamp", .int 1)]) [bareServiceClient] := by
  constructor
  · intro h
    obtain ⟨s, hs⟩ := h Collation.binary nothing (fun _ => .failed) 0 0 true (fun _ => ∅)
      noServices emptyDatabase
    cases hs
  · intro h
    have hrun : collect Collation.binary nothing (fun _ => .failed) 0
        (some (.obj [("timestamp", .int 1)])) true
        ⟨0, withEvents (fun _ => ∅) [bareServiceClient]⟩ noServices emptyDatabase =
          .error .outOfBounds := by
      rfl
    obtain ⟨s, hs⟩ := h Collation.binary nothing (fun _ => .failed) 0 0 true (fun _ => ∅)
      noServices emptyDatabase
    rw [hrun] at hs
    cases hs

end WatchedBack
