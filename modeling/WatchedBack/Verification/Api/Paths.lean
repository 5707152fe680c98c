import WatchedBack.Verification.Api.Catalog
import WatchedBack.Model.Collect

/-! # The two readings of a path

`createRessources` cuts the name of a resource out of its path, and `collect` splits the path to
find the samples of the resource in a reply. The first goes by the path, the second by the
`x-service` of its entry; where the two agree, the name tells the node. -/

namespace WatchedBack

open Fallible

/-! ### Cutting -/

section cut

variable {α : Type} [DecidableEq α] {sep : α} {ys zs : List α} {xs seg rest : List Char}

theorem ne_sep (h : sep ∉ zs) : ∀ a ∈ zs, decide (a ≠ sep) = true := by
  intro a ha
  exact decide_eq_true fun heq => h (heq ▸ ha)

theorem afterLast_append (h : '/' ∉ seg) : afterLast (xs ++ '/' :: seg) = seg := by
  have hreverse : (xs ++ '/' :: seg).reverse = seg.reverse ++ '/' :: xs.reverse := by simp
  rw [afterLast, hreverse, List.takeWhile_append_of_pos (ne_sep (by simpa using h)),
    List.takeWhile_cons_of_neg (by simp), List.append_nil, List.reverse_reverse]

theorem beforeLast_append (h : sep ∉ zs) : beforeLast sep (ys ++ sep :: zs) = ys := by
  have hreverse : (ys ++ sep :: zs).reverse = zs.reverse ++ sep :: ys.reverse := by simp
  rw [beforeLast, if_pos (by simp), hreverse,
    List.dropWhile_append_of_pos (ne_sep (by simpa using h)),
    List.dropWhile_cons_of_neg (by simp)]
  simp

/-- A resource of the system is named by what follows. -/
theorem ressourceName_system (name : String) :
    ressourceName (Utf8.bytes "system/" ++ Utf8.bytes name) = .ok ("host", name) := by
  have hdrop : (Utf8.bytes "system/" ++ Utf8.bytes name).drop 7 = Utf8.bytes name :=
    List.drop_left' (by decide)
  rw [ressourceName, if_pos (by simp), hdrop, Utf8.text_bytes]

/-- A resource of a service is named by what follows the name of the service. -/
theorem ressourceName_service {serv : List UInt8} (h : slash ∉ serv) (hne : serv ≠ [])
    (name : String) :
    ressourceName (Utf8.bytes "service/" ++ (serv ++ slash :: Utf8.bytes name)) =
      .ok ("service", name) := by
  obtain ⟨b, bs, rfl⟩ := List.exists_cons_of_ne_nil hne
  rw [List.mem_cons, not_or] at h
  have hbytes : Utf8.bytes "service/" = [115, 101, 114, 118, 105, 99, 101, 47] := by decide
  have hprefix : Utf8.bytes "system/" = [115, 121, 115, 116, 101, 109, 47] := by decide
  have hdrop : (Utf8.bytes "service/" ++ (b :: bs ++ slash :: Utf8.bytes name)).drop 9 =
      bs ++ slash :: Utf8.bytes name := by
    simp [hbytes]
  have hlength : ¬ (Utf8.bytes "service/" ++ (b :: bs ++ slash :: Utf8.bytes name)).length < 9 := by
    simp [hbytes]
  rw [ressourceName, if_neg (by simp [hbytes, hprefix]), if_neg hlength, hdrop]
  dsimp only
  rw [if_pos (by simp), List.dropWhile_append_of_pos (ne_sep h.2),
    List.dropWhile_cons_of_neg (by simp), List.drop_one, List.tail_cons, Utf8.text_bytes]

/-- What comes before a slash is a piece of its own. -/
theorem getlines_append_cons (h : '/' ∉ seg) (line : List Char) :
    getlines (seg ++ '/' :: rest) line =
      String.ofList (line.reverse ++ seg) :: getlines rest [] := by
  induction seg generalizing line with
  | nil => simp [getlines]
  | cons c seg ih =>
      rw [List.mem_cons, not_or] at h
      rw [List.cons_append, getlines, ih h.2]
      · simp
      · exact fun hc => h.1 hc.symm

/-- The rest after the last slash is a piece if it is not empty. -/
theorem getlines_last (h : '/' ∉ seg) {line : List Char} (hne : line ++ seg ≠ []) :
    getlines seg line = [String.ofList (line.reverse ++ seg)] := by
  induction seg generalizing line with
  | nil =>
      cases line with
      | nil => simp at hne
      | cons c line => simp [getlines]
  | cons c seg ih =>
      rw [List.mem_cons, not_or] at h
      rw [getlines, ih h.2 (by simp)]
      · simp
      · exact fun hc => h.1 hc.symm

end cut

/-! ### Paths of resources -/

/-- A part of a path. -/
structure Segment where
  text : String
  nonempty : text.toList ≠ []
  noSlash : '/' ∉ text.toList

/-- `/system/C/R/history` -/
def systemPath (C R : Segment) : String := "/system/" ++ C.text ++ "/" ++ R.text ++ "/history"

/-- `/service/S/C/R/history` -/
def servicePath (S C R : Segment) : String :=
  "/service/" ++ S.text ++ "/" ++ C.text ++ "/" ++ R.text ++ "/history"

variable (S C R : Segment)

theorem Segment.bytes_ne_nil (S : Segment) : Utf8.bytes S.text ≠ [] :=
  fun h => S.nonempty (Utf8.bytes_eq_nil_iff.mp h)

theorem Segment.slash_notMem (S : Segment) : slash ∉ Utf8.bytes S.text :=
  fun h => S.noSlash ((Utf8.mem_bytes (by decide)).mp h)

theorem bytes_systemPath : Utf8.bytes (systemPath C R) =
    slash :: (Utf8.bytes "system/" ++ Utf8.bytes (C.text ++ "/" ++ R.text)) ++
      slash :: Utf8.bytes "history" := by
  have hfirst : Utf8.bytes "/system/" = slash :: Utf8.bytes "system/" := by decide
  have hlast : Utf8.bytes "/history" = slash :: Utf8.bytes "history" := by decide
  simp [systemPath, hfirst, hlast]

theorem bytes_servicePath : Utf8.bytes (servicePath S C R) =
    slash :: (Utf8.bytes "service/" ++
      (Utf8.bytes S.text ++ slash :: Utf8.bytes (C.text ++ "/" ++ R.text))) ++
      slash :: Utf8.bytes "history" := by
  have hfirst : Utf8.bytes "/service/" = slash :: Utf8.bytes "service/" := by decide
  have hlast : Utf8.bytes "/history" = slash :: Utf8.bytes "history" := by decide
  have hslash : Utf8.bytes "/" = [slash] := by decide
  simp [servicePath, hfirst, hlast, hslash]

theorem nameOf_systemPath : nameOf (systemPath C R) = .ok ("host", C.text ++ "/" ++ R.text) := by
  rw [nameOf, bytes_systemPath, List.cons_append, pathRes, beforeLast_append (by decide), ok_bind,
    ressourceName_system]

theorem nameOf_servicePath :
    nameOf (servicePath S C R) = .ok ("service", C.text ++ "/" ++ R.text) := by
  rw [nameOf, bytes_servicePath, List.cons_append, pathRes, beforeLast_append (by decide), ok_bind,
    ressourceName_service S.slash_notMem S.bytes_ne_nil]

theorem pieces_systemPath :
    pieces (systemPath C R) = ["", "system", C.text, R.text, "history"] := by
  have hparts : (systemPath C R).toList = [] ++ '/' :: ("system".toList ++ '/' ::
      (C.text.toList ++ '/' :: (R.text.toList ++ '/' :: "history".toList))) := by
    simp [systemPath]
  rw [pieces, hparts, getlines_append_cons (by simp), getlines_append_cons (by decide),
    getlines_append_cons C.noSlash, getlines_append_cons R.noSlash,
    getlines_last (by decide) (by simp)]
  simp

theorem pieces_servicePath :
    pieces (servicePath S C R) = ["", "service", S.text, C.text, R.text, "history"] := by
  have hparts : (servicePath S C R).toList = [] ++ '/' :: ("service".toList ++ '/' ::
      (S.text.toList ++ '/' :: (C.text.toList ++ '/' :: (R.text.toList ++ '/' ::
        "history".toList)))) := by
    simp [servicePath]
  rw [pieces, hparts, getlines_append_cons (by simp), getlines_append_cons (by decide),
    getlines_append_cons S.noSlash, getlines_append_cons C.noSlash, getlines_append_cons R.noSlash,
    getlines_last (by decide) (by simp)]
  simp

/-! ### Registration and collection -/

/-- The two kinds of paths with a history. -/
inductive HistoryPath
  | system (C R : Segment)
  | service (S C R : Segment)

namespace HistoryPath

def text : HistoryPath → String
  | system C R => systemPath C R
  | service S C R => servicePath S C R

def origin : HistoryPath → String
  | system _ _ => "host"
  | service _ _ _ => "service"

def name : HistoryPath → String
  | system C R => C.text ++ "/" ++ R.text
  | service _ C R => C.text ++ "/" ++ R.text

def isService : HistoryPath → Bool
  | system _ _ => false
  | service _ _ _ => true

/-- The node of a reply that has the samples of the resource. -/
def node (servName : String) : HistoryPath → List String
  | system C R => ["system", C.text, R.text]
  | service _ C R => ["services", servName, "collectors", C.text, R.text]

end HistoryPath

/-- The name of a resource tells its two parts. -/
theorem parts_of_name {C R C' R' : Segment} (h : C.text ++ "/" ++ R.text = C'.text ++ "/" ++ R'.text) :
    C.text = C'.text ∧ R.text = R'.text := by
  have hlist : C.text.toList ++ '/' :: R.text.toList = C'.text.toList ++ '/' :: R'.text.toList := by
    simpa using congrArg String.toList h
  have hlast := congrArg afterLast hlist
  rw [afterLast_append R.noSlash, afterLast_append R'.noSlash] at hlast
  have hfirst := congrArg (beforeLast '/') hlist
  rw [beforeLast_append R.noSlash, beforeLast_append R'.noSlash] at hfirst
  exact ⟨String.toList_inj.mp hfirst, String.toList_inj.mp hlast⟩

/-- A client of the system is handed the node of its path. -/
theorem node_of_system {b : RessourceClient} {C R : Segment} (hkind : b.isService = false)
    (hpath : b.baseurl = systemPath C R) (data : Json) :
    b.node data = data.path ["system", C.text, R.text] := by
  simp [RessourceClient.node, hkind, hpath, pieces_systemPath, pieceAt, Json.path, -pure_eq_ok,
    -Fallible.foldlM_nil]

/-- A client of a service is handed the node of its path, of the service that it was made for. -/
theorem node_of_service {b : RessourceClient} {S C R : Segment} (hkind : b.isService = true)
    (hpath : b.baseurl = servicePath S C R) (data : Json) :
    b.node data = data.path ["services", b.servName, "collectors", C.text, R.text] := by
  simp [RessourceClient.node, hkind, hpath, pieces_servicePath, pieceAt, Json.path, -pure_eq_ok,
    -Fallible.foldlM_nil]

/-- A client is of a service exactly if the entry of its path has an `x-service`. -/
theorem isSome_of_readService {entry : Json} {service : Option String} {known : Bool}
    (h : readService entry = .ok service) (hmember : entry.isMember "x-service" = .ok known) :
    service.isSome = known := by
  rw [readService, hmember, ok_bind] at h
  cases known with
  | false =>
      cases h
      rfl
  | true =>
      rw [if_pos rfl] at h
      obtain ⟨v, -, h⟩ := bind_eq_ok.mp h
      obtain ⟨name, -, h⟩ := bind_eq_ok.mp h
      cases h
      rfl

/-- `createRessources` gives a path its origin and name. If the entry has an `x-service` exactly for
a path of a service, then the client that is made of it is stored under that name, and `collect`
hands it the node that the name tells. -/
theorem registration_matches_collection (p : HistoryPath) :
    nameOf p.text = .ok (p.origin, p.name) ∧
    (∀ (σ : Type) (store : Store σ) (api entry : Json) (s s' : σ) (new : RessourceClient),
      describe store api (p.text, entry) s = .ok (some new, s') →
      entry.isMember "x-service" = .ok p.isService →
        (∃ item, item.origin = p.origin ∧ item.name = p.name ∧
          new.resId = (lookupRessource store item s).1) ∧
        ∀ data : Json, new.node data = data.path (p.node new.servName)) ∧
    ∀ q : HistoryPath, q.origin = p.origin → q.name = p.name →
      ∀ servName, q.node servName = p.node servName := by
  have hname : nameOf p.text = .ok (p.origin, p.name) := by
    cases p with
    | system C R => exact nameOf_systemPath C R
    | service S C R => exact nameOf_servicePath S C R
  refine ⟨hname, ?_, ?_⟩
  · intro σ store api entry s s' new hdescribe hmember
    cases describe_description hdescribe with
    | client item service definition hpath hid hservice hdef =>
        have hitem := readPath_nameOf hpath
        obtain ⟨horigin, hitemName⟩ : p.origin = item.origin ∧ p.name = item.name := by
          simpa [hname] using hitem
        refine ⟨⟨item, horigin.symm, hitemName.symm, rfl⟩, fun data => ?_⟩
        have hkind : service.isSome = p.isService := isSome_of_readService hservice hmember
        cases p with
        | system C R => exact node_of_system hkind rfl data
        | service S C R => exact node_of_service hkind rfl data
  · intro q horigin hnames servName
    cases p with
    | system C R =>
        cases q with
        | system C' R' =>
            obtain ⟨hC, hR⟩ := parts_of_name hnames
            rw [HistoryPath.node, HistoryPath.node, hC, hR]
        | service S' C' R' => simp [HistoryPath.origin] at horigin
    | service S C R =>
        cases q with
        | system C' R' => simp [HistoryPath.origin] at horigin
        | service S' C' R' =>
            obtain ⟨hC, hR⟩ := parts_of_name hnames
            rw [HistoryPath.node, HistoryPath.node, hC, hR]

def diskSegment : Segment := ⟨"disk", by decide, by decide⟩

def usageSegment : Segment := ⟨"usage", by decide, by decide⟩

theorem registration_matches_collection_disk : ∃ new c',
    describe (Catalog.store .binary) (apiValue [] [])
        ((HistoryPath.system diskSegment usageSegment).text,
          getterPath "#/definitions/disk" [("x-host", .str "web")]) emptyCatalog =
      .ok (some new, c') ∧
      ∀ data : Json, new.node data = data.path ["system", "disk", "usage"] := by
  have hrun : (describe (Catalog.store .binary) (apiValue [] [])
      ((HistoryPath.system diskSegment usageSegment).text,
        getterPath "#/definitions/disk" [("x-host", .str "web")]) emptyCatalog).toOption.map
        (fun r => r.1.isSome) = some true := by
    decide +kernel
  obtain ⟨⟨client, c'⟩, hdescribe, hsome⟩ := exists_ok_of_toOption_map hrun
  obtain ⟨new, rfl⟩ := Option.isSome_iff_exists.mp hsome
  have hmember : (getterPath "#/definitions/disk" [("x-host", .str "web")]).isMember "x-service" =
      .ok (HistoryPath.system diskSegment usageSegment).isService := rfl
  obtain ⟨-, hclient, -⟩ := registration_matches_collection (.system diskSegment usageSegment)
  exact ⟨new, c', hdescribe, (hclient Catalog _ _ _ _ _ new hdescribe hmember).2⟩

/-- A path of a service whose entry has no `x-service`: `collect` looks for it in the system. -/
theorem service_path_read_in_system :
    ¬ ∀ (p : HistoryPath) (σ : Type) (store : Store σ) (api entry : Json) (s s' : σ)
      (new : RessourceClient), describe store api (p.text, entry) s = .ok (some new, s') →
        ∀ data : Json, new.node data = data.path (p.node new.servName) := by
  intro h
  have hrun : (describe (Catalog.store .binary) (apiValue [] [])
      ((HistoryPath.service diskSegment diskSegment usageSegment).text,
        getterPath "#/definitions/disk" [("x-host", .str "web")]) emptyCatalog).toOption.map
        (fun r => r.1.map fun b => (b.isService, b.baseurl, b.servName)) =
      some (some (false, "/service/disk/disk/usage/history", "")) := by
    decide +kernel
  obtain ⟨⟨client, c'⟩, hdescribe, hclient⟩ := exists_ok_of_toOption_map hrun
  obtain ⟨new, rfl, hnew⟩ := Option.map_eq_some_iff.mp hclient
  simp only [Prod.mk.injEq] at hnew
  obtain ⟨hkind, hpath, hserv⟩ := hnew
  have hnode := h (.service diskSegment diskSegment usageSegment) Catalog _ _ _ _ _ new hdescribe
    (.obj [("system", .obj [("disk", .obj [("disk", .int 1)])])])
  have hsystem : new.node (.obj [("system", .obj [("disk", .obj [("disk", .int 1)])])]) =
      .ok (.int 1) := by
    have hpieces : pieces new.baseurl = ["", "service", "disk", "disk", "usage", "history"] := by
      rw [hpath]
      decide +kernel
    simp [RessourceClient.node, hkind, hpieces, pieceAt, Json.member, List.lookup]
  rw [hsystem, hserv] at hnode
  have hnull : (Json.obj [("system", .obj [("disk", .obj [("disk", .int 1)])])]).path
      ((HistoryPath.service diskSegment diskSegment usageSegment).node "") = .ok .null := rfl
  rw [hnull] at hnode
  cases hnode

end WatchedBack
