import WatchedBack.Library.Fallible

/-! Loops by an iterator over an ordered map that their body may change. An iterator points to the
element of a key and is good for as long as the map holds that element: reading or advancing it
after the element was erased ends the run. -/

namespace Iterators

open Fallible

universe u v

/-- How a loop ends that does not come to the end of the map. -/
inductive Stop (ε : Type u) (κ : Type v)
  | thrown (e : ε)
  | dangling (key : κ)
  | endless
  deriving DecidableEq, Repr

section loop

variable {ε κ ν σ : Type u} [LinearOrder κ]

/-- `begin()`: the first element, or none for `end()`. -/
def start (elements : List (κ × ν)) : Option κ := elements.head?.map Prod.fst

/-- `i++` from the element of a key: the next key of the order, or none for `end()`. -/
def next (elements : List (κ × ν)) (key : κ) : Option κ :=
  (elements.find? fun entry => key < entry.1).map Prod.fst

variable (elements : σ → List (κ × ν)) (body : σ → κ × ν → Except ε σ)

/-- One element: the iterator is read, the body runs, and the element must still be there for the
iterator to be advanced. -/
def visit (s : σ) (key : κ) : Except (Stop ε κ) σ :=
  match (elements s).lookup key with
  | none => .error (.dangling key)
  | some value =>
      match body s (key, value) with
      | .error e => .error (.thrown e)
      | .ok s' =>
          if key ∈ (elements s').map Prod.fst then .ok s' else .error (.dangling key)

/-- The loop from an iterator on, with the keys of the elements that it examined. -/
def loop : ℕ → Option κ → σ → Except (Stop ε κ) (List κ × σ)
  | _, none, s => .ok ([], s)
  | 0, some _, _ => .error .endless
  | fuel + 1, some key, s => do
      let s' ← visit elements body s key
      let (keys, t) ← loop fuel (next (elements s') key) s'
      return (key :: keys, t)

/-! ### Positions in a sorted map -/

variable {entries pre suf : List (κ × ν)} {key : κ} {value : ν}

theorem lookup_of_mem (h : entries.Pairwise fun a b => a.1 < b.1) (hmem : (key, value) ∈ entries) :
    entries.lookup key = some value := by
  induction entries with
  | nil => simp at hmem
  | cons entry rest ih =>
      obtain ⟨hfirst, hrest⟩ := List.pairwise_cons.mp h
      rcases List.mem_cons.mp hmem with rfl | hmem
      · simp
      · have hne : key ≠ entry.1 := (hfirst _ hmem).ne'
        rw [List.lookup_cons, beq_false_of_ne hne]
        exact ih hrest hmem

/-- The keys up to one are passed over, and the iterator moves to the head of what follows. -/
theorem next_append_cons (h : (pre ++ (key, value) :: suf).Pairwise fun a b => a.1 < b.1) :
    next (pre ++ (key, value) :: suf) key = start suf := by
  obtain ⟨-, hafter, hbefore⟩ := List.pairwise_append.mp h
  have hpre : ∀ entry ∈ pre, ¬ key < entry.1 := fun entry hentry =>
    (hbefore entry hentry _ List.mem_cons_self).le.not_gt
  have hpass : pre.find? (fun entry => decide (key < entry.1)) = none := by
    simpa using hpre
  rw [next, List.find?_append, hpass, Option.none_or, List.find?_cons_of_neg (by simp)]
  cases suf with
  | nil => rfl
  | cons entry rest =>
      have hlt : key < entry.1 := (List.pairwise_cons.mp hafter).1 entry List.mem_cons_self
      rw [List.find?_cons_of_pos (by simpa using hlt)]
      rfl

/-! ### A body that erases nothing but the element it was given -/

variable {elements body}

/-- The body leaves the elements as they are, or erases the one it was given. -/
def Local (elements : σ → List (κ × ν)) (body : σ → κ × ν → Except ε σ) : Prop :=
  ∀ s entry s', body s entry = .ok s' →
    elements s' = elements s ∨ entry.1 ∉ (elements s').map Prod.fst

/-- The iterator survives an element exactly if the body leaves the elements as they are. -/
theorem visit_eq_ok (hlocal : Local elements body) {s s' : σ}
    (hsorted : (elements s).Pairwise fun a b => a.1 < b.1) (hmem : (key, value) ∈ elements s) :
    visit elements body s key = .ok s' ↔
      body s (key, value) = .ok s' ∧ elements s' = elements s := by
  have hkey : key ∈ (elements s).map Prod.fst := List.mem_map_of_mem hmem
  simp only [visit, lookup_of_mem hsorted hmem]
  cases hb : body s (key, value) with
  | error e => simp
  | ok t =>
      rcases hlocal s _ t hb with hkept | herased
      · simp only [hkept, hkey, if_true, Except.ok.injEq]
        constructor
        · intro h
          exact ⟨h, h ▸ hkept⟩
        · intro h
          exact h.1
      · simp only [herased, if_false, reduceCtorEq, false_iff, Except.ok.injEq]
        rintro ⟨rfl, hkept⟩
        rw [hkept] at herased
        exact herased hkey

/-- The loop over what is left of the map goes over its list, one element after the other. -/
theorem loop_eq_ok (hlocal : Local elements body) {s t : σ} {keys : List κ} {fuel : ℕ}
    (hsorted : (elements s).Pairwise fun a b => a.1 < b.1) (heq : elements s = pre ++ suf)
    (hfuel : suf.length ≤ fuel) :
    loop elements body fuel (start suf) s = .ok (keys, t) ↔
      keys = suf.map Prod.fst ∧
        suf.foldlM (fun s entry => visit elements body s entry.1) s = .ok t := by
  induction suf generalizing pre s keys fuel with
  | nil => simp [start, loop, eq_comm]
  | cons entry suf ih =>
      obtain ⟨key, value⟩ := entry
      cases fuel with
      | zero => simp at hfuel
      | succ fuel =>
          have hmem : (key, value) ∈ elements s := by simp [heq]
          have hlength : suf.length ≤ fuel := by simpa using hfuel
          rw [show start ((key, value) :: suf) = some key from rfl, loop, bind_eq_ok,
            foldlM_cons_eq_ok]
          have hrest : ∀ s' rest, visit elements body s key = .ok s' →
              (loop elements body fuel (next (elements s') key) s' = .ok (rest, t) ↔
                rest = suf.map Prod.fst ∧
                  suf.foldlM (fun s entry => visit elements body s entry.1) s' = .ok t) := by
            intro s' rest hvisit
            have hkept := ((visit_eq_ok hlocal hsorted hmem).mp hvisit).2
            have hnext : next (elements s') key = start suf := by
              rw [hkept, heq]
              exact next_append_cons (heq ▸ hsorted)
            rw [hnext]
            have hrest : elements s' = (pre ++ [(key, value)]) ++ suf := by
              rw [hkept, heq, List.append_assoc, List.singleton_append]
            exact ih (hkept.symm ▸ hsorted) hrest hlength
          constructor
          · rintro ⟨s', hvisit, h⟩
            obtain ⟨⟨rest, t'⟩, hloop, heq'⟩ := bind_eq_ok.mp h
            obtain ⟨rfl, rfl⟩ : key :: rest = keys ∧ t' = t := by simpa using heq'
            obtain ⟨hkeys, hfold⟩ := (hrest s' rest hvisit).mp hloop
            exact ⟨by rw [hkeys, List.map_cons], s', hvisit, hfold⟩
          · rintro ⟨rfl, s', hvisit, hfold⟩
            refine ⟨s', hvisit, bind_eq_ok.mpr ⟨(suf.map Prod.fst, t), ?_, rfl⟩⟩
            exact (hrest s' _ hvisit).mpr ⟨rfl, hfold⟩

/-- With as many rounds as there are elements, the loop comes to the end of the map exactly if
every element survives its round; it has then examined each element once, in order. -/
theorem loop_start_eq_ok (hlocal : Local elements body) {s t : σ} {keys : List κ}
    (hsorted : (elements s).Pairwise fun a b => a.1 < b.1) :
    loop elements body (elements s).length (start (elements s)) s = .ok (keys, t) ↔
      keys = (elements s).map Prod.fst ∧
        (elements s).foldlM (fun s entry => visit elements body s entry.1) s = .ok t :=
  loop_eq_ok hlocal hsorted (List.nil_append _).symm le_rfl

end loop

end Iterators
