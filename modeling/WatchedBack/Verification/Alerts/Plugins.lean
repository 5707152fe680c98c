import WatchedBack.Library.Interleavings
import WatchedBack.Model.Alerter
import WatchedBack.Model.Plugins

/-! # Alerters and their properties

Backends that start add their alerters to one table, each by a statement of its own. A row keeps its
id, and has the spelling of the insert that came last. -/

namespace WatchedBack

open Interleavings Reports

/-! ### The files of a directory -/

/-- A file that the loop looks at. -/
def DirEntry.Visible (e : DirEntry) : Prop := e.name.head? ≠ some '.' ∧ e.isDirectory = some false

section files

variable {e : DirEntry} {entries : List DirEntry} {name base suffix : List Char}

theorem passed_eq_false_iff : e.passed = false ↔ e.Visible := by
  simp [DirEntry.passed, DirEntry.Visible]

theorem not_visible_of_passed (h : e.passed = true) : ¬ e.Visible := by
  rw [← passed_eq_false_iff, h]
  exact Bool.noConfusion

theorem extension_eq_none_iff : extension name = none ↔ '.' ∉ name := by
  simp [extension]

theorem stem_append (base : List Char) {rest : List Char} (hrest : '.' ∉ rest) :
    stem (base ++ '.' :: rest) = base ∧ extension (base ++ '.' :: rest) = some ('.' :: rest) := by
  have hdot : '.' ∈ base ++ '.' :: rest := List.mem_append_right _ List.mem_cons_self
  have hback : (base ++ '.' :: rest).reverse = rest.reverse ++ '.' :: base.reverse := by simp
  have hother : ∀ c ∈ rest.reverse, decide (c ≠ '.') = true := by
    intro c hc
    apply decide_eq_true
    rintro rfl
    exact hrest (List.mem_reverse.mp hc)
  rw [stem, if_pos hdot, extension, if_pos hdot, hback, List.dropWhile_append_of_pos hother,
    List.takeWhile_append_of_pos hother]
  simp

/-- The extension begins with the last dot. -/
theorem stem_extension_iff {rest : List Char} (hrest : '.' ∉ rest) :
    extension name = some ('.' :: rest) ∧ stem name = base ↔ name = base ++ '.' :: rest := by
  constructor
  · rintro ⟨hext, rfl⟩
    have hdot : '.' ∈ name := by
      by_contra hnone
      rw [extension_eq_none_iff.mpr hnone] at hext
      cases hext
    obtain ⟨as, bs, hsplit, hfirst⟩ := List.eq_append_cons_of_mem (List.mem_reverse.mpr hdot)
    have hname : name = bs.reverse ++ '.' :: as.reverse := by
      rw [← List.reverse_reverse name, hsplit]
      simp
    have hlast : '.' ∉ as.reverse := fun h => hfirst (List.mem_reverse.mp h)
    obtain ⟨hstem, hext'⟩ := stem_append bs.reverse hlast
    rw [← hname] at hstem hext'
    rw [hext'] at hext
    obtain ⟨-, hsame⟩ := List.cons.inj (Option.some.inj hext)
    rw [hstem, ← hsame]
    exact hname
  · rintro rfl
    obtain ⟨hstem, hext⟩ := stem_append base hrest
    exact ⟨hext, hstem⟩

/-- The loop comes to its end if no file is without an extension. -/
theorem plugins_ended_iff (suffix : List Char) (entries : List DirEntry) :
    (plugins suffix entries).2 = true ↔ ∀ e ∈ entries, e.Visible → '.' ∈ e.name := by
  induction entries with
  | nil => simp [plugins]
  | cons e entries ih =>
      rw [plugins, List.forall_mem_cons]
      cases hpassed : e.passed with
      | true =>
          have hnot := not_visible_of_passed hpassed
          rw [if_pos rfl, ih]
          simp [hnot]
      | false =>
          have hvisible := passed_eq_false_iff.mp hpassed
          rw [if_neg Bool.false_ne_true]
          cases hext : extension e.name with
          | none =>
              have hdot := extension_eq_none_iff.mp hext
              simp [hvisible, hdot]
          | some ext =>
              have hdot : '.' ∈ e.name := by
                by_contra hnone
                rw [extension_eq_none_iff.mpr hnone] at hext
                cases hext
              simpa [hvisible, hdot] using ih

/-- The plugins are the files with this suffix. -/
theorem mem_plugins (rest : List Char) (hrest : '.' ∉ rest) {plugin : String}
    (h : (plugins ('.' :: rest) entries).2 = true) :
    plugin ∈ (plugins ('.' :: rest) entries).1 ↔
      ∃ e ∈ entries, e.Visible ∧ e.name = plugin.toList ++ '.' :: rest := by
  induction entries with
  | nil => simp [plugins]
  | cons e entries ih =>
      rw [plugins] at h ⊢
      cases hpassed : e.passed with
      | true =>
          have hnot := not_visible_of_passed hpassed
          rw [hpassed, if_pos rfl] at h
          rw [if_pos rfl, ih h, List.exists_mem_cons_iff]
          simp [hnot]
      | false =>
          have hvisible := passed_eq_false_iff.mp hpassed
          rw [hpassed, if_neg Bool.false_ne_true] at h
          rw [if_neg Bool.false_ne_true, List.exists_mem_cons_iff]
          cases hext : extension e.name with
          | none =>
              rw [hext] at h
              cases h
          | some ext =>
              rw [hext] at h
              have hname : e.name = plugin.toList ++ '.' :: rest ↔
                  ext = '.' :: rest ∧ String.ofList (stem e.name) = plugin := by
                rw [← stem_extension_iff hrest, hext, Option.some.injEq]
                apply and_congr_right
                intro _
                rw [← String.toList_inj, String.toList_ofList]
              simp only [hvisible, true_and, hname]
              rw [← ih h]
              split
              · next heq => simp [heq, eq_comm]
              · next hne => simp [hne]

end files

/-! ### A start -/

namespace AlerterStart

variable {s : AlerterStart} {name : String}

theorem foldl_addLua (alerters names : List String) :
    (∀ name, name ∈ names.foldl addLua alerters ↔ name ∈ alerters ∨ name ∈ names) ∧
      (alerters.Nodup → (names.foldl addLua alerters).Nodup) := by
  induction names generalizing alerters with
  | nil => simp
  | cons name names ih =>
      obtain ⟨hmem, hnodup⟩ := ih (addLua alerters name)
      have hone (other : String) :
          other ∈ addLua alerters name ↔ other ∈ alerters ∨ other = name := by
        rw [addLua]
        split
        · next hold =>
          refine ⟨Or.inl, fun h => h.elim id ?_⟩
          rintro rfl
          exact hold
        · simp
      refine ⟨fun other => ?_, fun h => hnodup ?_⟩
      · rw [List.foldl_cons, hmem, hone, List.mem_cons, or_assoc]
      · rw [addLua]
        split
        · exact h
        · next hnew =>
          refine List.nodup_append.mpr ⟨h, List.nodup_singleton _, fun a ha b hb heq => ?_⟩
          rw [heq, List.mem_singleton.mp hb] at ha
          exact hnew ha

/-- The files that the constructor looks at. -/
def entries (s : AlerterStart) : List DirEntry := s.cpp.getD [] ++ s.lua.getD []

/-- The alerters of the plugins in the two directories. -/
structure Started (s : AlerterStart) (alerters : List String) : Prop where
  once : alerters.Nodup
  exact : ∀ name, name ∈ alerters ↔
    (∃ lib, (∃ e ∈ s.cpp.getD [], e.Visible ∧ e.name = lib.toList ++ ".so".toList) ∧
      name ∈ s.load lib) ∨
    ∃ e ∈ s.lua.getD [], e.Visible ∧ e.name = name.toList ++ ".lua".toList

theorem mem_factory (h : (plugins ".so".toList (s.cpp.getD [])).2 = true) : name ∈ s.factory ↔
    ∃ lib, (∃ e ∈ s.cpp.getD [], e.Visible ∧ e.name = lib.toList ++ ".so".toList) ∧
      name ∈ s.load lib := by
  rw [factory, List.mem_insertionSort, List.mem_dedup, List.mem_flatMap]
  refine exists_congr fun lib => and_congr_left fun _ => ?_
  exact mem_plugins ['s', 'o'] (by decide) h

/-- A backend starts if and only if no file in the two directories is without an extension, hidden
ones apart, and it has the alerters of the C++ plugins and those of the Lua scripts of other names,
each added once. -/
theorem starts_iff (s : AlerterStart) :
    (s.alerters.isSome = true ↔ ∀ e ∈ s.entries, e.Visible → '.' ∈ e.name) ∧
      ∀ alerters, s.alerters = some alerters → s.added = alerters ∧ s.Started alerters := by
  constructor
  · rw [alerters, entries, List.forall_mem_append, ← plugins_ended_iff ".so".toList,
      ← plugins_ended_iff ".lua".toList, ← Bool.and_eq_true]
    change (if s.returns then some s.added else none).isSome = true ↔ s.returns = true
    split
    · next h => simp [h]
    · next h => simp [h]
  · intro alerters h
    rw [AlerterStart.alerters] at h
    split at h
    · next hreturns =>
      obtain rfl := Option.some.inj h
      obtain ⟨hcpp, hlua⟩ := Bool.and_eq_true_iff.mp hreturns
      obtain ⟨hmem, hnodup⟩ := foldl_addLua s.factory (plugins ".lua".toList (s.lua.getD [])).1
      have hadded : s.added =
          (plugins ".lua".toList (s.lua.getD [])).1.foldl addLua s.factory := if_pos hcpp
      refine ⟨rfl, ?_, fun name => ?_⟩
      · rw [hadded]
        apply hnodup
        exact (List.perm_insertionSort _ _).nodup_iff.mpr (List.nodup_dedup _)
      · rw [hadded, hmem, mem_factory hcpp]
        apply or_congr_right
        exact mem_plugins ['l', 'u', 'a'] (by decide) hlua
    · cases h

end AlerterStart

/-! ### The rows of the alerters -/

def Collation.likeness (col : Collation) : Likeness String where
  same := col.same
  refl := col.refl
  symm := col.symm
  trans := col.trans

theorem same_comm (col : Collation) (a b : String) : col.same a b = col.same b a :=
  col.likeness.comm a b

section rows

variable {col : Collation} {properties rows : List NameRow} {log : List String} {name : String}

/-- No two rows have one id or one name. -/
structure UniqueNames (col : Collation) (rows : List NameRow) : Prop where
  ids : (rows.map NameRow.id).Nodup
  names : rows.Pairwise fun row row' => col.same row.name row'.name = false

/-- What inserts make of a table: a row keeps its id and, up to the collation, its name, and every
inserted name has a row, in the spelling of the last insert. -/
structure Inserted (col : Collation) (properties : List NameRow) (log : List String)
    (rows : List NameRow) : Prop where
  unique : UniqueNames col rows
  kept : ∀ row ∈ properties, ∃ row' ∈ rows, row'.id = row.id ∧ col.same row'.name row.name = true
  found : ∀ name ∈ log, ∃ row ∈ rows, col.same name row.name = true
  spelled : ∀ row ∈ rows, ∀ last, col.likeness.last log row.name = some last → row.name = last

/-- A row after an insert of its name. -/
def respell (col : Collation) (name : String) (row : NameRow) : NameRow :=
  if col.same row.name name then { row with name := name } else row

@[simp] theorem respell_id (row : NameRow) : (respell col name row).id = row.id := by
  unfold respell
  split
  · rfl
  · rfl

@[simp] theorem same_respell (row : NameRow) (other : String) :
    col.same (respell col name row).name other = col.same row.name other := by
  unfold respell
  split
  · next h => exact (col.likeness.congr h other).symm
  · rfl

/-- An insert respells the row of its name, or adds one. -/
theorem addAlerter_cases (col : Collation) (rows : List NameRow) (name : String) :
    ((∃ row ∈ rows, col.same row.name name = true) ∧
      addAlerter col rows name = rows.map (respell col name)) ∨
    (∀ row ∈ rows, col.same row.name name = false) ∧
      addAlerter col rows name = rows ++ [⟨nextId (rows.map NameRow.id), name⟩] := by
  rw [addAlerter, ServiceTables.upsert]
  split
  · next h => exact Or.inl ⟨List.any_eq_true.mp h, rfl⟩
  · next h =>
    rw [Bool.not_eq_true, List.any_eq_false] at h
    exact Or.inr ⟨fun row hrow => Bool.eq_false_of_not_eq_true (h row hrow), rfl⟩

theorem UniqueNames.addAlerter (h : UniqueNames col rows) (name : String) :
    UniqueNames col (addAlerter col rows name) := by
  rcases addAlerter_cases col rows name with ⟨-, hrows⟩ | ⟨hnew, hrows⟩
  · rw [hrows]
    constructor
    · have hids : NameRow.id ∘ respell col name = NameRow.id := funext respell_id
      rw [List.map_map, hids]
      exact h.ids
    · rw [List.pairwise_map]
      refine h.names.imp fun {a b} hab => ?_
      rw [same_respell, same_comm, same_respell, same_comm]
      exact hab
  · rw [hrows]
    constructor
    · rw [List.map_append]
      refine List.nodup_append.mpr ⟨h.ids, List.nodup_singleton _, fun a ha b hb heq => ?_⟩
      rw [heq, List.mem_singleton.mp hb] at ha
      exact nextId_notMem _ ha
    · refine List.pairwise_append.mpr ⟨h.names, List.pairwise_singleton _ _, fun a ha b hb => ?_⟩
      rw [List.mem_singleton.mp hb]
      exact hnew a ha

theorem Inserted.addAlerter (h : Inserted col properties log rows) (name : String) :
    Inserted col properties (log ++ [name]) (addAlerter col rows name) := by
  have hlast (row : NameRow) : col.likeness.last (log ++ [name]) row.name =
      if col.same row.name name then some name else col.likeness.last log row.name := by
    rw [Likeness.last_append, Likeness.last_singleton, Collation.likeness]
    split
    · rfl
    · rfl
  rcases addAlerter_cases col rows name with ⟨⟨known, hknown, hsame⟩, hrows⟩ | ⟨hnew, hrows⟩
  · refine ⟨h.unique.addAlerter name, fun row hrow => ?_, fun other hother => ?_,
      fun row hrow last => ?_⟩
    · obtain ⟨row', hrow', hid, hname⟩ := h.kept row hrow
      refine ⟨respell col name row', ?_, ?_, ?_⟩
      · rw [hrows]
        exact List.mem_map_of_mem hrow'
      · rw [respell_id, hid]
      · rw [same_respell, hname]
    · rw [hrows]
      rcases List.mem_append.mp hother with hother | hother
      · obtain ⟨row, hrow, hname⟩ := h.found other hother
        refine ⟨_, List.mem_map_of_mem hrow, col.symm ?_⟩
        rw [same_respell]
        exact col.symm hname
      · rw [List.mem_singleton.mp hother]
        refine ⟨_, List.mem_map_of_mem hknown, col.symm ?_⟩
        rw [same_respell]
        exact hsame
    · rw [hrows] at hrow
      obtain ⟨old, hold, rfl⟩ := List.mem_map.mp hrow
      rw [hlast, same_respell]
      unfold respell
      split
      · next heq =>
        intro hname
        exact Option.some.inj hname
      · exact h.spelled old hold last
  · refine ⟨h.unique.addAlerter name, fun row hrow => ?_, fun other hother => ?_,
      fun row hrow last => ?_⟩
    · obtain ⟨row', hrow', hkept⟩ := h.kept row hrow
      rw [hrows]
      exact ⟨row', List.mem_append_left _ hrow', hkept⟩
    · rw [hrows]
      rcases List.mem_append.mp hother with hother | hother
      · obtain ⟨row, hrow, hname⟩ := h.found other hother
        exact ⟨row, List.mem_append_left _ hrow, hname⟩
      · rw [List.mem_singleton.mp hother]
        exact ⟨_, List.mem_append_right _ (List.mem_singleton_self _), col.refl name⟩
    · rw [hlast]
      rw [hrows] at hrow
      rcases List.mem_append.mp hrow with hrow | hrow
      · rw [hnew row hrow, if_neg Bool.false_ne_true]
        exact h.spelled row hrow last
      · rw [List.mem_singleton.mp hrow, col.refl, if_pos rfl]
        exact Option.some.inj

theorem inserted_foldl (h : UniqueNames col properties) (log : List String) :
    Inserted col properties log (log.foldl (addAlerter col) properties) := by
  induction log using List.reverseRecOn with
  | nil =>
      refine ⟨h, fun row hrow => ⟨row, hrow, rfl, col.refl _⟩, by simp, fun row hrow last hlast => ?_⟩
      cases hlast
  | append_singleton log name ih =>
      rw [List.foldl_append]
      exact ih.addAlerter name

end rows

/-! ### Backends that start at any time -/

section starts

variable {col : Collation} {properties : List NameRow} {starts : List AlerterStart}
  {log : List String} {name : String}

/-- The rows of one name. -/
theorem Inserted.filter_eq {rows : List NameRow} (h : Inserted col properties log rows)
    (hname : name ∈ log) : ∃ row, rows.filter (fun r => col.same name r.name) = [row] ∧
      col.likeness.last log name = some row.name := by
  obtain ⟨row, hrow, hsame⟩ := h.found name hname
  obtain ⟨last, hlast⟩ := Likeness.exists_last (L := col.likeness) (Likeness.seenIn_of_mem hname)
  refine ⟨row, ?_, ?_⟩
  · obtain ⟨before, after, rfl⟩ := List.append_of_mem hrow
    have hunique := h.unique.names
    rw [List.pairwise_append, List.pairwise_cons] at hunique
    obtain ⟨-, ⟨hafter, -⟩, hbefore⟩ := hunique
    have hother {r : NameRow} (hr : col.same r.name row.name = false) :
        ¬ col.same name r.name = true := by
      intro heq
      rw [col.trans (col.symm heq) hsame] at hr
      cases hr
    have hnone₁ : before.filter (fun r => col.same name r.name) = [] :=
      List.filter_eq_nil_iff.mpr fun r hr => hother (hbefore r hr row List.mem_cons_self)
    have hnone₂ : after.filter (fun r => col.same name r.name) = [] :=
      List.filter_eq_nil_iff.mpr fun r hr => hother ((same_comm col _ _).trans (hafter r hr))
    rw [List.filter_append, List.filter_cons, if_pos hsame, hnone₁, hnone₂]
    rfl
  · rw [hlast, ← h.spelled row hrow last]
    rw [← Likeness.last_congr (L := col.likeness) hsame]
    exact hlast

/-- Where no two properties have one name at first: whatever backends start, and however their
inserts come in turn, each property keeps its id, and an alerter that was added has one row, in the
spelling of its last insert. A backend that has started finds this alerter under the row, in every
order, if and only if it has an alerter of the spelling that each start ends with. -/
theorem alerters_registered (hunique : UniqueNames col properties) (starts : List AlerterStart) :
    (∀ log, Interleaving (starts.map AlerterStart.inserted) log →
      Inserted col properties log (log.foldl (addAlerter col) properties)) ∧
    ∀ s ∈ starts, ∀ alerters, s.alerters = some alerters →
      ∀ name ∈ alerters, s.done name = true →
        ((∀ log, Interleaving (starts.map AlerterStart.inserted) log →
            ∃ row, (log.foldl (addAlerter col) properties).filter (fun r => col.same name r.name) =
              [row] ∧ row.name ∈ alerters) ↔
          ∀ s' ∈ starts, ∀ last, col.likeness.last s'.inserted name = some last →
            last ∈ alerters) := by
  refine ⟨fun log _ => inserted_foldl hunique log, fun s hs alerters hstart name hname hdone => ?_⟩
  have hinserted : name ∈ s.inserted := by
    rw [AlerterStart.inserted, ((AlerterStart.starts_iff s).2 alerters hstart).1]
    exact List.mem_filter.mpr ⟨hname, hdone⟩
  have hrow {log : List String} (hlog : Interleaving (starts.map AlerterStart.inserted) log) :
      ∃ row, (log.foldl (addAlerter col) properties).filter (fun r => col.same name r.name) = [row] ∧
        col.likeness.last log name = some row.name :=
    (inserted_foldl hunique log).filter_eq
      (hlog.mem_iff.mpr ⟨_, List.mem_map_of_mem hs, hinserted⟩)
  constructor
  · intro h s' hs' last hlast
    obtain ⟨others, hlog⟩ := Interleaving.exists_last (List.mem_map_of_mem hs' : s'.inserted ∈ _)
    obtain ⟨row, hfilter, hmem⟩ := h _ hlog
    obtain ⟨row', hfilter', hrow'⟩ := hrow hlog
    rw [hfilter, List.singleton_inj] at hfilter'
    rw [Likeness.last_append, hlast, ← hfilter'] at hrow'
    rw [Option.some.inj hrow']
    exact hmem
  · intro h log hlog
    obtain ⟨row, hfilter, hlast⟩ := hrow hlog
    obtain ⟨inserted, hmem, hlast⟩ := hlog.exists_last_report hlast
    obtain ⟨s', hs', rfl⟩ := List.mem_map.mp hmem
    exact ⟨row, hfilter, h s' hs' row.name hlast⟩

/-- The scripts of a backend. -/
def luaStart (files : List String) : AlerterStart where
  cpp := none
  lua := some (files.map fun file => ⟨file.toList, some false⟩)
  load := fun _ => []
  done := fun _ => true

theorem alerters_registered_twoBackends :
    ∃ log, Interleaving ([luaStart ["email.lua"], luaStart ["email.lua", "sms.lua"]].map
        AlerterStart.inserted) log ∧
      ∃ row, (log.foldl (addAlerter .binary) [⟨1, "email"⟩]).filter
        (fun r => Collation.binary.same "email" r.name) = [row] ∧ row.name ∈ ["email"] := by
  have hunique : UniqueNames .binary [⟨1, "email"⟩] := ⟨by decide, List.pairwise_singleton _ _⟩
  have hlog := (Interleaving.single (luaStart ["email.lua", "sms.lua"]).inserted).append
    (luaStart ["email.lua"]).inserted
  refine ⟨_, hlog, ?_⟩
  apply ((alerters_registered hunique [luaStart ["email.lua"], luaStart ["email.lua", "sms.lua"]]).2
    (luaStart ["email.lua"]) List.mem_cons_self ["email"] (by decide) "email" (by decide) rfl).mpr
  · intro s' hs' last hlast
    have hname : Collation.binary.same "email" last = true := (Likeness.last_spec hlast).2
    rw [← of_decide_eq_true hname]
    exact List.mem_singleton_self _
  · exact hlog

end starts

end WatchedBack
