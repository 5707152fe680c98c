import WatchedBack.Library.Growth
import WatchedBack.Model.Services

/-! # The lookups of names

A lookup adds the name if it is missing, and answers the id under which it is then found. -/

namespace WatchedBack

open Growth

theorem getName_spec (found : NameRow → Bool) (name : String) (rows : List NameRow)
    (hname : ∀ id, found ⟨id, name⟩ = true) :
    Grows NameRow.id rows (getName found name (nextId (rows.map NameRow.id)) rows).1 ∧
      ((getName found name (nextId (rows.map NameRow.id)) rows).1.find? found).map NameRow.id =
        some (getName found name (nextId (rows.map NameRow.id)) rows).2 := by
  by_cases hany : rows.any found = true
  · obtain ⟨row, hrow⟩ := Option.isSome_iff_exists.mp
      (List.find?_isSome.mpr (List.any_eq_true.mp hany))
    simp only [getName, hany, if_true, hrow]
    exact ⟨.refl _, rfl⟩
  · have hnone : rows.find? found = none := by
      rw [List.find?_eq_none]
      intro row hrow hfound
      exact hany (List.any_eq_true.mpr ⟨row, hrow, hfound⟩)
    simp only [getName, hany, Bool.false_eq_true, if_false, List.find?_append, hnone,
      List.find?_cons, hname]
    exact ⟨.append (nextId_notMem _), rfl⟩

theorem getService_rows (col : Collation) (hostId : ℕ) (name : String) (services : List ServiceRow) :
    Grows ServiceRow.id services
        (getService col hostId name (nextId (services.map ServiceRow.id)) services).1 ∧
      ((getService col hostId name (nextId (services.map ServiceRow.id)) services).1.find?
          fun row => row.hostId = hostId ∧ col.same row.name name).map ServiceRow.id =
        some (getService col hostId name (nextId (services.map ServiceRow.id)) services).2 := by
  by_cases hany : (services.any fun row : ServiceRow =>
      row.hostId = hostId ∧ col.same row.name name) = true
  · obtain ⟨row, hrow⟩ := Option.isSome_iff_exists.mp
      (List.find?_isSome.mpr (List.any_eq_true.mp hany))
    simp only [getService, hany, if_true, hrow]
    exact ⟨.refl _, rfl⟩
  · have hnone : (services.find? fun row : ServiceRow =>
        row.hostId = hostId ∧ col.same row.name name) = none := by
      rw [List.find?_eq_none]
      intro row hrow hfound
      exact hany (List.any_eq_true.mpr ⟨row, hrow, hfound⟩)
    simp only [getService, hany, Bool.false_eq_true, if_false, List.find?_append, hnone,
      List.find?_cons, col.refl, and_self, decide_true]
    exact ⟨.append (nextId_notMem _), rfl⟩

end WatchedBack
