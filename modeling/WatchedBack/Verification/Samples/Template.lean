import WatchedBack.Model.InsertText
import WatchedBack.Verification.Samples.Keys

/-! # The template of a sample

The loops of `updateDefs` write columns, values and updates with one running number; read back and
filled by name, they make the statement whose every column has its own value. -/

namespace WatchedBack

open Fallible Templates

/-! ### Definitions -/

/-- The names of a definition that fit into a template. -/
structure Definable (definition : Json) : Prop where
  nodup : definition.keys.Nodup
  length : definition.keys.length ≤ 127
  identifiers : ∀ k ∈ definition.keys, k ≠ "" ∧ ∀ c ∈ k.toList, isWord c = true
  updated : ∃ k ∈ definition.keys, k ≠ "timestamp"

/-! ### The text of the template -/

section text

/-- A parameter as it is written. -/
def paramText (p : String × ℕ) : List Char :=
  '%' :: ((toString p.2).toList ++ ':' :: p.1.toList)

/-- The columns that are updated, with their numbers. -/
def updated (keys : List String) : List (String × ℕ) :=
  keys.zipIdx.filter fun p => p.1 ≠ "timestamp"

/-- Nothing stands before the first part, and the separator before every other one. -/
theorem intercalate_cons {α : Type} (sep : List α) (parts : List (List α)) (first : List α) :
    sep.intercalate (first :: parts) = first ++ parts.flatMap fun part => sep ++ part := by
  induction parts generalizing first with
  | nil => simp
  | cons part parts ih =>
      have hrest := ih part
      rw [List.intercalate_cons_cons, hrest, List.flatMap_cons]
      simp only [List.append_assoc]

/-- After a column has been written, each one has a comma before it. -/
theorem foldl_updateText (ps : List (String × ℕ)) (text : String) :
    (ps.foldl (fun (acc : Bool × String) p =>
      if p.1 = "timestamp" then acc
      else (false, acc.2 ++ (if acc.1 then "" else ", ") ++
        (p.1 ++ "=%" ++ toString p.2 ++ ":" ++ p.1))) (false, text)).2.toList =
      text.toList ++ (ps.filter fun p => p.1 ≠ "timestamp").flatMap fun p =>
        (", " ++ p.1 ++ "=").toList ++ paramText p := by
  induction ps generalizing text with
  | nil => simp
  | cons p ps ih =>
      by_cases hp : p.1 = "timestamp"
      · simp only [List.foldl_cons, hp, if_true, ih, List.filter_cons, ne_eq, not_true_eq_false,
          decide_false, Bool.false_eq_true, if_false]
      · rw [List.foldl_cons, if_neg hp, ih, List.filter_cons_of_pos (by simpa using hp),
          List.flatMap_cons]
        simp [paramText]

theorem updateText_toList (keys : List String) :
    (updateText keys).toList =
      (", ".toList).intercalate ((updated keys).map fun p => (p.1 ++ "=").toList ++ paramText p) := by
  have hloop : ∀ ps : List (String × ℕ), (ps.foldl (fun (acc : Bool × String) p =>
      if p.1 = "timestamp" then acc
      else (false, acc.2 ++ (if acc.1 then "" else ", ") ++
        (p.1 ++ "=%" ++ toString p.2 ++ ":" ++ p.1))) (true, "")).2.toList =
      (", ".toList).intercalate ((ps.filter fun p => p.1 ≠ "timestamp").map fun p =>
        (p.1 ++ "=").toList ++ paramText p) := by
    intro ps
    induction ps with
    | nil => simp
    | cons p ps ih =>
        by_cases hp : p.1 = "timestamp"
        · rw [List.foldl_cons, if_pos hp, ih, List.filter_cons_of_neg (by simpa using hp)]
        · rw [List.foldl_cons, if_neg hp, foldl_updateText, List.filter_cons_of_pos (by simpa using hp),
            List.map_cons, intercalate_cons, List.flatMap_map]
          simp [paramText]
  exact hloop keys.zipIdx

/-- The template, part by part. -/
theorem baseInsertText_toList (c : RessourceClient) (definition : Json) :
    (c.baseInsertText definition).toList =
      ("insert into " ++ ("d$" ++ c.table) ++ "(" ++ c.idName ++ ", res_id").toList ++
        (definition.keys.flatMap (fun k => (", " ++ k).toList) ++
          ((") values (" ++ toString c.hostId ++ ", " ++ toString c.resId).toList ++
            (definition.keys.zipIdx.flatMap (fun p => ", ".toList ++ paramText p) ++
              (") ON DUPLICATE KEY UPDATE ".toList ++ (updateText definition.keys).toList)))) := by
  have hvalue : ∀ p : String × ℕ, ", %".toList ++
      ((toString p.2).toList ++ (":".toList ++ p.1.toList)) = ", ".toList ++ paramText p := by
    intro p
    simp [paramText]
  have hinto : ∀ rest : List Char, "insert into d$".toList ++ rest =
      "insert into ".toList ++ ("d$".toList ++ rest) := by
    intro rest
    simp
  unfold RessourceClient.baseInsertText
  simp only [String.toList_append, String.toList_join, List.flatMap_map, List.append_assoc, hvalue]
  exact hinto _

end text

/-! ### Reading it back -/

section scan

variable (mysql : Scanner)

/-- The pieces of a text. -/
def copied (text : String) : List Piece := text.toList.map .char

/-- The piece of a parameter. -/
def paramPiece (p : String × ℕ) : Piece := .param p.2 p.1.toList

/-- A parameter that a template can have. -/
def Writable (p : String × ℕ) : Prop :=
  p.2 ≤ 127 ∧ p.1 ≠ "" ∧ ∀ c ∈ p.1.toList, isWord c = true

variable {mysql} {rest : List Char}

theorem isWord_ne_percent {text : List Char} (h : ∀ c ∈ text, isWord c = true) : '%' ∉ text := by
  intro hmem
  exact absurd (h '%' hmem) (by decide)

theorem scan_param {p : String × ℕ} (hp : Writable p) (hends : Ends rest) :
    mysql.scan (paramText p ++ rest) = paramPiece p :: mysql.scan rest := by
  obtain ⟨hnumber, hne, hword⟩ := hp
  have hname : p.1.toList ≠ [] := fun h => hne (String.toList_eq_nil_iff.mp h)
  have hparam := mysql.scan_param p.2 p.1.toList rest hnumber hname hword hends
  rw [paramPiece, ← hparam]
  simp [paramText]

/-- What follows a parameter, if the next one has a comma before it. -/
theorem ends_flatMap {lead : String × ℕ → List Char} (hlead : ∀ p, (lead p).head? = some ',')
    (ps : List (String × ℕ)) (hrest : Ends rest) :
    Ends (ps.flatMap (fun p => lead p ++ paramText p) ++ rest) := by
  cases ps with
  | nil => exact hrest
  | cons p ps =>
      obtain ⟨tail, htail⟩ := List.head?_eq_some_iff.mp (hlead p)
      intro c hc
      simp only [List.flatMap_cons, htail, List.cons_append, List.head?_cons,
        Option.mem_some_iff] at hc
      subst hc
      decide

/-- A loop that writes a text and a parameter for each column is read back as it was written. -/
theorem scan_flatMap (mysql : Scanner) (lead : String × ℕ → List Char)
    (hlead : ∀ p, (lead p).head? = some ',') (ps : List (String × ℕ))
    (hpercent : ∀ p ∈ ps, '%' ∉ lead p) (hps : ∀ p ∈ ps, Writable p) (hrest : Ends rest) :
    mysql.scan (ps.flatMap (fun p => lead p ++ paramText p) ++ rest) =
      ps.flatMap (fun p => (lead p).map .char ++ [paramPiece p]) ++ mysql.scan rest := by
  induction ps with
  | nil => rfl
  | cons p ps ih =>
      have hends := ends_flatMap hlead ps hrest
      have htail := ih (fun q hq => hpercent q (List.mem_cons_of_mem _ hq))
        (fun q hq => hps q (List.mem_cons_of_mem _ hq))
      rw [List.flatMap_cons, List.append_assoc, List.append_assoc,
        mysql.scan_append (hpercent p List.mem_cons_self),
        scan_param (hps p List.mem_cons_self) hends, htail, List.flatMap_cons]
      simp

variable (mysql)

def columnPieces (keys : List String) : List Piece := keys.flatMap fun k => copied (", " ++ k)

def valuePieces (keys : List String) : List Piece :=
  keys.zipIdx.flatMap fun p => copied ", " ++ [paramPiece p]

def updatePieces (keys : List String) : List Piece :=
  (copied ", ").intercalate ((updated keys).map fun p => copied (p.1 ++ "=") ++ [paramPiece p])

/-- The columns of a definition can be written, each with the number of its place. -/
theorem Definable.writable {definition : Json} (h : Definable definition) {p : String × ℕ}
    (hp : p ∈ definition.keys.zipIdx) : Writable p := by
  have hplace : definition.keys[p.2]? = some p.1 := List.mem_zipIdx_iff_getElem?.mp hp
  have hlt : p.2 < definition.keys.length := (List.getElem?_eq_some_iff.mp hplace).1
  have hlength := h.length
  obtain ⟨hne, hword⟩ := h.identifiers p.1 (List.mem_of_getElem? hplace)
  exact ⟨by omega, hne, hword⟩

theorem scan_intercalate {ps : List (String × ℕ)} (hps : ∀ p ∈ ps, Writable p) :
    mysql.scan ((", ".toList).intercalate
        (ps.map fun p => (p.1 ++ "=").toList ++ paramText p)) =
      (copied ", ").intercalate (ps.map fun p => copied (p.1 ++ "=") ++ [paramPiece p]) := by
  cases ps with
  | nil => exact mysql.scan_nil
  | cons p ps =>
      have hword : ∀ q ∈ p :: ps, '%' ∉ (q.1 ++ "=").toList := by
        intro q hq
        simp [isWord_ne_percent (hps q hq).2.2]
      have hlead : ∀ q : String × ℕ, (", ".toList ++ (q.1 ++ "=").toList).head? = some ',' := by
        intro q
        simp
      have hnil : Ends [] := by simp [Ends]
      have hrest := scan_flatMap mysql (fun q => ", ".toList ++ (q.1 ++ "=").toList) hlead ps
        (fun q hq => by simp [isWord_ne_percent (hps q (List.mem_cons_of_mem _ hq)).2.2])
        (fun q hq => hps q (List.mem_cons_of_mem _ hq)) hnil
      have hends := ends_flatMap hlead ps hnil
      rw [List.append_nil, mysql.scan_nil, List.append_nil] at hrest
      rw [List.append_nil] at hends
      simp only [List.append_assoc] at hrest hends
      rw [List.map_cons, List.map_cons, intercalate_cons, intercalate_cons, List.flatMap_map,
        List.flatMap_map, List.append_assoc, mysql.scan_append (hword p List.mem_cons_self),
        scan_param (hps p List.mem_cons_self) hends, hrest]
      simp [copied]

/-- The template is read back as it was written. -/
theorem scan_baseInsertText (c : RessourceClient) {definition : Json} (h : Definable definition)
    (htable : '%' ∉ c.table.toList) :
    mysql.scan (c.baseInsertText definition).toList =
      copied ("insert into " ++ ("d$" ++ c.table) ++ "(" ++ c.idName ++ ", res_id") ++
        columnPieces definition.keys ++
        copied (") values (" ++ toString c.hostId ++ ", " ++ toString c.resId) ++
        valuePieces definition.keys ++ copied ") ON DUPLICATE KEY UPDATE " ++
        updatePieces definition.keys := by
  have hidName : '%' ∉ c.idName.toList := by
    unfold RessourceClient.idName
    split <;> decide
  have hdigits : ∀ n : ℕ, '%' ∉ Nat.toDigits 10 n := fun n hmem =>
    absurd (Nat.isDigit_of_mem_toDigits (by decide) (by decide) hmem) (by decide)
  have hheader : '%' ∉ ("insert into " ++ ("d$" ++ c.table) ++ "(" ++ c.idName ++
      ", res_id").toList := by
    simp [htable, hidName]
  have hcolumns : '%' ∉ definition.keys.flatMap fun k => (", " ++ k).toList := by
    intro hmem
    obtain ⟨k, hk, hmem⟩ := List.mem_flatMap.mp hmem
    have hword := isWord_ne_percent (h.identifiers k hk).2
    simp [hword] at hmem
  have hids : '%' ∉ (") values (" ++ toString c.hostId ++ ", " ++ toString c.resId).toList := by
    simp [hdigits]
  have hends : Ends (") ON DUPLICATE KEY UPDATE ".toList ++
      (updateText definition.keys).toList) := by
    intro d hd
    have hfirst : ')' = d := by simpa using hd
    subst hfirst
    decide
  have hvalues := scan_flatMap mysql (fun _ => ", ".toList) (fun _ => rfl)
    definition.keys.zipIdx (fun _ _ => by simp) (fun p hp => h.writable hp) hends
  have hupdate : mysql.scan (updateText definition.keys).toList = updatePieces definition.keys := by
    rw [updateText_toList]
    exact scan_intercalate mysql fun p hp => h.writable (List.mem_of_mem_filter hp)
  rw [baseInsertText_toList, mysql.scan_append hheader, mysql.scan_append hcolumns,
    mysql.scan_append hids, hvalues, mysql.scan_append (by simp), hupdate, List.map_flatMap]
  simp only [copied, columnPieces, valuePieces, List.append_assoc]

end scan

/-! ### Names and numbers -/

section names

variable {keys : List String} {n : ℕ} {name : List Char}

theorem mem_intercalate {α : Type} {sep : List α} {parts : List (List α)} {x : α}
    (h : x ∈ sep.intercalate parts) : x ∈ sep ∨ ∃ part ∈ parts, x ∈ part := by
  cases parts with
  | nil => simp at h
  | cons first parts =>
      rw [intercalate_cons, List.mem_append] at h
      rcases h with h | h
      · exact Or.inr ⟨first, List.mem_cons_self, h⟩
      · obtain ⟨part, hpart, h⟩ := List.mem_flatMap.mp h
        rcases List.mem_append.mp h with h | h
        · exact Or.inl h
        · exact Or.inr ⟨part, List.mem_cons_of_mem _ hpart, h⟩

theorem param_notMem_copied (text : String) : .param n name ∉ copied text := by
  simp [copied]

/-- A parameter that was written for a column has the place and the name of the column. -/
theorem place_of_mem {p : String × ℕ} {text : String} (hp : p ∈ keys.zipIdx)
    (h : .param n name ∈ copied text ++ [paramPiece p]) :
    (keys.map String.toList)[n]? = some name := by
  rcases List.mem_append.mp h with h | h
  · exact absurd h (param_notMem_copied text)
  · obtain ⟨rfl, rfl⟩ : n = p.2 ∧ name = p.1.toList := by
      simpa [paramPiece] using h
    rw [List.getElem?_map, List.mem_zipIdx_iff_getElem?.mp hp, Option.map_some]

theorem place_of_mem_valuePieces (h : .param n name ∈ valuePieces keys) :
    (keys.map String.toList)[n]? = some name := by
  obtain ⟨p, hp, h⟩ := List.mem_flatMap.mp h
  exact place_of_mem hp h

theorem place_of_mem_updatePieces (h : .param n name ∈ updatePieces keys) :
    (keys.map String.toList)[n]? = some name := by
  rcases mem_intercalate h with h | ⟨part, hpart, h⟩
  · exact absurd h (param_notMem_copied ", ")
  · obtain ⟨p, hp, rfl⟩ := List.mem_map.mp hpart
    exact place_of_mem (List.mem_of_mem_filter hp) h

/-- The parameters are numbered by the names of the columns. -/
theorem numberedBy_keys (header ids : String) :
    NumberedBy (keys.map String.toList) (copied header ++ columnPieces keys ++ copied ids ++
      valuePieces keys ++ copied ") ON DUPLICATE KEY UPDATE " ++ updatePieces keys) where
  number n name h := by
    simp only [List.mem_append, param_notMem_copied, false_or, or_false] at h
    rcases h with (h | h) | h
    · obtain ⟨k, -, h⟩ := List.mem_flatMap.mp h
      exact absurd h (param_notMem_copied _)
    · exact place_of_mem_valuePieces h
    · exact place_of_mem_updatePieces h
  used name hname := by
    obtain ⟨k, hk, rfl⟩ := List.mem_map.mp hname
    obtain ⟨n, hn⟩ := List.getElem?_of_mem hk
    have hvalue : .param n k.toList ∈ valuePieces keys :=
      List.mem_flatMap.mpr ⟨(k, n), List.mem_zipIdx_iff_getElem?.mpr hn, by simp [paramPiece]⟩
    exact ⟨n, by simp [hvalue]⟩

/-! ### The statement that is sent -/

/-- The insert whose columns have the values of their names. -/
def ownInsert (c : RessourceClient) (keys : List String) (value : String → ℚ) : SampleInsert where
  table := "d$" ++ c.table
  idName := c.idName
  ownerId := c.hostId
  resId := c.resId
  values := keys.map fun k => (k, some (value k))
  update := (keys.filter fun k => k ≠ "timestamp").map fun k => (k, some (value k))

theorem renderByName_append (value : List Char → ℚ) (ps qs : List Piece) :
    renderByName (ps ++ qs) value = renderByName ps value ++ renderByName qs value :=
  List.map_append

theorem renderByName_copied (value : List Char → ℚ) (text : String) :
    renderByName (copied text) value = chars text := by
  simp [renderByName, copied, chars, Function.comp_def]

theorem renderByName_flatMap {α : Type} (value : List Char → ℚ) (xs : List α) (f : α → List Piece) :
    renderByName (xs.flatMap f) value = xs.flatMap fun x => renderByName (f x) value :=
  List.map_flatMap

theorem renderByName_intercalate (value : List Char → ℚ) (sep : List Piece)
    (parts : List (List Piece)) : renderByName (sep.intercalate parts) value =
      (renderByName sep value).intercalate (parts.map fun part => renderByName part value) := by
  cases parts with
  | nil => rfl
  | cons part parts =>
      rw [intercalate_cons, renderByName_append, renderByName_flatMap, List.map_cons,
        intercalate_cons, List.flatMap_map]
      simp only [renderByName_append]

/-- A column that is written with its number is sent with its value. -/
theorem renderByName_part (value : List Char → ℚ) (text : String) (p : String × ℕ) :
    renderByName (copied text ++ [paramPiece p]) value =
      chars text ++ [.value (some (value p.1.toList))] := by
  rw [renderByName_append, renderByName_copied]
  rfl

theorem map_fst_updated (keys : List String) :
    (updated keys).map Prod.fst = keys.filter fun k => k ≠ "timestamp" := by
  conv_rhs => rw [← List.zipIdx_map_fst 0 keys, List.filter_map]
  rfl

theorem renderByName_eq_tokens (c : RessourceClient) (value : List Char → ℚ) :
    renderByName (copied ("insert into " ++ ("d$" ++ c.table) ++ "(" ++ c.idName ++ ", res_id") ++
        columnPieces keys ++ copied (") values (" ++ toString c.hostId ++ ", " ++ toString c.resId) ++
        valuePieces keys ++ copied ") ON DUPLICATE KEY UPDATE " ++ updatePieces keys) value =
      (ownInsert c keys fun k => value k.toList).tokens := by
  have hvalues : renderByName (valuePieces keys) value =
      keys.flatMap fun k => chars ", " ++ [.value (some (value k.toList))] := by
    rw [valuePieces, renderByName_flatMap]
    conv_rhs => rw [← List.zipIdx_map_fst 0 keys, List.flatMap_map]
    simp only [renderByName_part]
  have hupdates : renderByName (updatePieces keys) value = (chars ", ").intercalate
      ((keys.filter fun k => k ≠ "timestamp").map fun k =>
        chars (k ++ "=") ++ [.value (some (value k.toList))]) := by
    rw [updatePieces, renderByName_intercalate, renderByName_copied, ← map_fst_updated,
      List.map_map, List.map_map]
    simp only [Function.comp_def, renderByName_part]
  have hcolumns : renderByName (columnPieces keys) value = keys.flatMap fun k => chars (", " ++ k) := by
    rw [columnPieces, renderByName_flatMap]
    simp only [renderByName_copied]
  simp only [renderByName_append, renderByName_copied, hcolumns, hvalues, hupdates]
  simp only [SampleInsert.tokens, ownInsert, List.flatMap_map, List.map_map, Function.comp_def]

end names

/-! ### Sending a line -/

section send

variable {mysql : Scanner} {c : RessourceClient} {definition line : Json}

/-- The value that a line has for a column. -/
def Json.floatAt (line : Json) (k : String) : ℚ :=
  ((line.member k >>= Json.asFloat).toOption).getD 0

theorem floatAt_eq {k : String} (h : Succeeds (line.member k >>= Json.asFloat)) :
    line.member k >>= Json.asFloat = .ok (line.floatAt k) := by
  obtain ⟨x, hx⟩ := h
  rw [Json.floatAt, hx]
  rfl

theorem mapM_floatAt {β : Type} (name : String → β) {entries : List (String × Json)}
    (h : ∀ p ∈ entries, Succeeds (line.member p.1 >>= Json.asFloat)) :
    (entries.mapM fun (k, _) => do return (name k, ← (← line.member k).asFloat)) =
      Except.ok (entries.map fun p => (name p.1, line.floatAt p.1)) := by
  induction entries with
  | nil => rfl
  | cons p entries ih =>
      have hp := floatAt_eq (h p List.mem_cons_self)
      obtain ⟨v, hv, hx⟩ := bind_eq_ok.mp hp
      rw [List.mapM_cons, ih fun q hq => h q (List.mem_cons_of_mem _ hq)]
      simp [hv, hx]

/-- The template, read back and filled, is the insert of the own values. -/
theorem insertTokens_eq (hdef : Definable definition) (htable : '%' ∉ c.table.toList)
    (hline : ∀ k ∈ definition.keys, Succeeds (line.member k >>= Json.asFloat)) :
    insertTokens mysql c definition line =
      .ok (ownInsert c definition.keys line.floatAt).tokens := by
  have hentries : ∀ p ∈ definition.entries, Succeeds (line.member p.1 >>= Json.asFloat) :=
    fun p hp => hline p.1 (List.mem_map_of_mem hp)
  have hbound : definition.entries.map (fun p => (p.1.toList, line.floatAt p.1)) =
      (definition.keys.map String.toList).map
        fun name => (name, line.floatAt (String.ofList name)) := by
    simp [Json.keys]
  have hnodup : (definition.keys.map String.toList).Nodup :=
    hdef.nodup.map fun _ _ heq => String.toList_inj.mp heq
  rw [insertTokens, mapM_floatAt String.toList hentries, ok_bind, hbound,
    scan_baseInsertText mysql c hdef htable,
    (numberedBy_keys _ _).render_bindAll hnodup fun name => line.floatAt (String.ofList name),
    renderByName_eq_tokens]
  simp only [String.ofList_toList]
  rfl

/-- The pairs that `InsertTemplate` keeps stand for the text. -/
theorem storeSample_eq_ownInsert {s : ParseState}
    (hline : ∀ k ∈ definition.keys, Succeeds (line.member k >>= Json.asFloat)) :
    storeSample (c.updateDefs definition) line s =
      .ok { s with inserts := s.inserts ++ [ownInsert c definition.keys line.floatAt] } := by
  have hentries : ∀ p ∈ definition.entries, Succeeds (line.member p.1 >>= Json.asFloat) :=
    fun p hp => hline p.1 (List.mem_map_of_mem hp)
  have hlookup : ∀ k ∈ definition.keys,
      (definition.entries.map fun p => (p.1, line.floatAt p.1)).lookup k = some (line.floatAt k) := by
    intro k hk
    have hkeys : (definition.entries.map fun p => (p.1, line.floatAt p.1)) =
        definition.keys.map fun k => (k, line.floatAt k) := by
      simp [Json.keys]
    rw [hkeys, lookup_map_self, if_pos hk]
  have hvalues := values_bind_updateDefs c definition
    (definition.entries.map fun p => (p.1, line.floatAt p.1))
  have hupdate : ((c.updateDefs definition).baseInsert.bind
      (definition.entries.map fun p => (p.1, line.floatAt p.1))).update =
        (ownInsert c definition.keys line.floatAt).update := by
    have hkeys : ∀ k ∈ definition.keys.filter (fun k => k ≠ "timestamp"),
        (k, (definition.entries.map fun p => (p.1, line.floatAt p.1)).lookup k) =
          (k, some (line.floatAt k)) := fun k hk => by
      rw [hlookup k (List.mem_of_mem_filter hk)]
    rw [ownInsert, ← List.map_congr_left hkeys, ← map_fst_updated, List.map_map]
    simp [RessourceClient.updateDefs, InsertTemplate.bind, updated, Json.keys]
  have hbind : (c.updateDefs definition).baseInsert.bind
      (definition.entries.map fun p => (p.1, line.floatAt p.1)) =
        ownInsert c definition.keys line.floatAt := by
    have hown : (definition.entries.map Prod.fst).map
        (fun k => (k, (definition.entries.map fun p => (p.1, line.floatAt p.1)).lookup k)) =
          definition.keys.map fun k => (k, some (line.floatAt k)) :=
      List.map_congr_left fun k hk => by rw [hlookup k hk]
    rw [hown] at hvalues
    exact congrArg₂ (SampleInsert.mk ("d$" ++ c.table) c.idName c.hostId c.resId) hvalues hupdate
  have hdefaults : (definition.entries.mapM fun (p : String × Json) => do
      return (p.1, ← (← line.member p.1).asFloat)) =
        Except.ok (definition.entries.map fun p => (p.1, line.floatAt p.1)) :=
    mapM_floatAt id hentries
  unfold storeSample
  change ((definition.entries.mapM fun (p : String × Json) => do
    return (p.1, ← (← line.member p.1).asFloat)) >>= _) = _
  rw [hdefaults]
  exact congrArg (fun stmt => Except.ok { s with inserts := s.inserts ++ [stmt] }) hbind

end send

/-- The statement lists the id column, `res_id` and every property once, each with its own value,
and updates every property but `timestamp` to its own value. -/
structure BindsOwnValues (mysql : Scanner) (c : RessourceClient) (definition line : Json)
    (stmt : SampleInsert) : Prop where
  sent : insertTokens mysql c definition line = .ok stmt.tokens
  target : stmt.table = "d$" ++ c.table ∧ stmt.idName = c.idName ∧ stmt.ownerId = c.hostId ∧
    stmt.resId = c.resId
  columns : stmt.values.map Prod.fst = definition.keys
  once : (stmt.idName :: "res_id" :: stmt.values.map Prod.fst).Nodup
  values : ∀ p ∈ stmt.values, ∃ x, line.member p.1 >>= Json.asFloat = .ok x ∧ p.2 = some x
  updates : stmt.update.map Prod.fst = definition.keys.filter fun k => k ≠ "timestamp"
  updateValues : ∀ p ∈ stmt.update, ∃ x, line.member p.1 >>= Json.asFloat = .ok x ∧ p.2 = some x
  updated : stmt.update ≠ []

/-- For a table without a percent sign, and properties that are not called like the id column or
`res_id`, the template that `updateDefs` writes makes the statement of the own values. -/
theorem template_binds_own_values (mysql : Scanner) (c : RessourceClient) (definition line : Json)
    (hdef : Definable definition) (htable : '%' ∉ c.table.toList)
    (hfree : c.idName ∉ definition.keys ∧ "res_id" ∉ definition.keys)
    (hline : ∀ k ∈ definition.keys, Succeeds (line.member k >>= Json.asFloat)) :
    ∃ stmt, BindsOwnValues mysql c definition line stmt := by
  have hvalue : ∀ k ∈ definition.keys, ∃ x, line.member k >>= Json.asFloat = .ok x ∧
      some (line.floatAt k) = some x :=
    fun k hk => ⟨line.floatAt k, floatAt_eq (hline k hk), rfl⟩
  have hid : c.idName ≠ "res_id" := by
    unfold RessourceClient.idName
    split <;> decide
  refine ⟨ownInsert c definition.keys line.floatAt, insertTokens_eq hdef htable hline,
    ⟨rfl, rfl, rfl, rfl⟩, ?_, ?_, ?_, ?_, ?_, ?_⟩
  · simp [ownInsert, Function.comp_def]
  · have hkeys : (ownInsert c definition.keys line.floatAt).values.map Prod.fst =
        definition.keys := by
      simp [ownInsert, Function.comp_def]
    rw [hkeys]
    refine List.nodup_cons.mpr ⟨?_, List.nodup_cons.mpr ⟨hfree.2, hdef.nodup⟩⟩
    intro hmem
    rcases List.mem_cons.mp hmem with h | h
    · exact hid h
    · exact hfree.1 h
  · intro p hp
    obtain ⟨k, hk, rfl⟩ := List.mem_map.mp hp
    exact hvalue k hk
  · simp [ownInsert, Function.comp_def]
  · intro p hp
    obtain ⟨k, hk, rfl⟩ := List.mem_map.mp hp
    exact hvalue k (List.mem_of_mem_filter hk)
  · obtain ⟨k, hk, hne⟩ := hdef.updated
    intro hnil
    have hmem : k ∈ definition.keys.filter fun k => k ≠ "timestamp" := by
      simp [hk, hne]
    rw [List.map_eq_nil_iff.mp hnil] at hmem
    cases hmem

theorem mem_keys_diskDefinition {k : String} (hk : k ∈ diskDefinition.keys) :
    k = "pctfree" ∨ k = "timestamp" := by
  simpa [diskDefinition, Json.keys, Json.entries] using hk

theorem diskDefinition_definable : Definable diskDefinition where
  nodup := by decide
  length := by decide
  identifiers k hk := by
    rcases mem_keys_diskDefinition hk with rfl | rfl <;>
      exact ⟨by decide, List.all_eq_true.mp rfl⟩
  updated := ⟨"pctfree", by decide, by decide⟩

theorem template_binds_own_values_disk :
    ∃ stmt, BindsOwnValues scanner diskClient diskDefinition (diskLine 0 50) stmt := by
  apply template_binds_own_values scanner diskClient diskDefinition (diskLine 0 50)
    diskDefinition_definable
  · decide
  · decide
  · intro k hk
    rcases mem_keys_diskDefinition hk with rfl | rfl <;> exact ⟨_, rfl⟩

/-- A table whose name holds a parameter. -/
def percentClient : RessourceClient := { diskClient with table := "%0:pctfree" }

/-- A property called `res_id` is the second column of that name, and a percent sign in the name of
the table is read as a parameter. -/
theorem template_misses :
    (¬ ∀ definition : Json, Definable definition →
        (∀ k ∈ definition.keys, Succeeds ((diskLine 0 50).member k >>= Json.asFloat)) →
          ∃ stmt, BindsOwnValues scanner diskClient definition (diskLine 0 50) stmt) ∧
      ¬ ∀ c : RessourceClient, ∃ stmt, BindsOwnValues scanner c diskDefinition (diskLine 0 50) stmt := by
  constructor
  · intro h
    have hkeys : ∀ k ∈ (Json.obj [("res_id", .null)]).keys, k = "res_id" := by
      intro k hk
      simpa [Json.keys, Json.entries] using hk
    have hdef : Definable (.obj [("res_id", .null)]) := by
      refine ⟨by decide, by decide, fun k hk => ?_, "res_id", by decide, by decide⟩
      rw [hkeys k hk]
      exact ⟨by decide, List.all_eq_true.mp rfl⟩
    obtain ⟨stmt, hbinds⟩ := h _ hdef fun k hk => by
      rw [hkeys k hk]
      exact ⟨_, rfl⟩
    have honce := hbinds.once
    rw [hbinds.columns] at honce
    simp [Json.keys, Json.entries] at honce
  · intro h
    obtain ⟨stmt, hbinds⟩ := h percentClient
    have hread : (insertTokens scanner percentClient diskDefinition (diskLine 0 50)).toOption.bind
        (fun tokens => tokens[14]?) = some (.value (some 50)) := by
      decide +kernel
    have hname : stmt.tokens[14]? = some (.char '%') := by
      obtain ⟨htable, hidName, -, -⟩ := hbinds.target
      simp [SampleInsert.tokens, htable, hidName, chars, percentClient]
    rw [hbinds.sent] at hread
    simp only [Except.toOption, Option.bind_some, hname] at hread
    cases hread

end WatchedBack
