import Mathlib

/-! Templates of statements, whose parameters carry a number and a name, and the binding of values
to the names. The scanner that reads a template is a parameter; what is relied on is stated of
it. -/

namespace Templates

universe u

/-- A piece of a template: a character that is copied, or a parameter. -/
inductive Piece
  | char (c : Char)
  | param (number : ℕ) (name : List Char)
  deriving DecidableEq, Repr

/-- A piece of the statement that is sent: a parameter to which nothing is bound has no value. -/
inductive Token (ν : Type u)
  | char (c : Char)
  | value (v : Option ν)
  deriving DecidableEq, Repr

/-- The characters of a name. -/
def isWord (c : Char) : Bool := c.isAlphanum || c == '_'

/-- A name ends before the rest: what follows is no part of it, and no colon, which closes it. -/
def Ends (rest : List Char) : Prop := ∀ c ∈ rest.head?, isWord c = false ∧ c ≠ ':'

/-- A scanner reads from the left. It copies what is not a percent sign, and takes
`%<number>:<name>` as a parameter, whose name is the longest run of the characters of a name.
The number is kept in a signed byte. -/
structure Scanner where
  scan : List Char → List Piece
  scan_nil : scan [] = []
  scan_char : ∀ c rest, c ≠ '%' → scan (c :: rest) = .char c :: scan rest
  scan_param : ∀ n name rest, n ≤ 127 → name ≠ [] → (∀ c ∈ name, isWord c = true) → Ends rest →
    scan ('%' :: ((toString n).toList ++ ':' :: (name ++ rest))) = .param n name :: scan rest

theorem Scanner.scan_append (m : Scanner) {text : List Char} (h : '%' ∉ text) (rest : List Char) :
    m.scan (text ++ rest) = text.map .char ++ m.scan rest := by
  induction text with
  | nil => rfl
  | cons c text ih =>
      rw [List.mem_cons, not_or] at h
      rw [List.cons_append, m.scan_char c _ (Ne.symm h.1), ih h.2]
      rfl

/-! ### Binding -/

section bind

variable {ν : Type u} (pieces : List Piece)

/-- The numbers that are given to a name. -/
def numbersOf (name : List Char) : List ℕ :=
  pieces.filterMap fun
    | .char _ => none
    | .param n m => if m = name then some n else none

/-- The number last given to a name; a name that no parameter has stands for number 0. -/
def numberOf (name : List Char) : ℕ := (numbersOf pieces name).getLast?.getD 0

/-- `template_defaults[name] = v` -/
def setDefault (defaults : ℕ → Option ν) (entry : List Char × ν) : ℕ → Option ν :=
  Function.update defaults (numberOf pieces entry.1) (some entry.2)

def bindAll (entries : List (List Char × ν)) : ℕ → Option ν :=
  entries.foldl (setDefault pieces) fun _ => none

def render (defaults : ℕ → Option ν) : List (Token ν) :=
  pieces.map fun
    | .char c => .char c
    | .param n _ => .value (defaults n)

/-- Every parameter has the value of its own name. -/
def renderByName (value : List Char → ν) : List (Token ν) :=
  pieces.map fun
    | .char c => .char c
    | .param _ name => .value (some (value name))

variable {pieces}

/-- The parameters are numbered by a list of names, each of which some parameter has. -/
structure NumberedBy (names : List (List Char)) (pieces : List Piece) : Prop where
  number : ∀ n name, .param n name ∈ pieces → names[n]? = some name
  used : ∀ name ∈ names, ∃ n, .param n name ∈ pieces

variable {names : List (List Char)} {name : List Char} {n : ℕ}

theorem mem_numbersOf : n ∈ numbersOf pieces name ↔ .param n name ∈ pieces := by
  rw [numbersOf, List.mem_filterMap]
  constructor
  · rintro ⟨piece, hmem, hpiece⟩
    cases piece with
    | char c => cases hpiece
    | param k m =>
        by_cases hm : m = name
        · simp only [hm, if_true, Option.some.injEq] at hpiece
          rwa [hm, hpiece] at hmem
        · simp [hm] at hpiece
  · intro hmem
    exact ⟨_, hmem, by simp⟩

/-- A name that is used has the number of its place. -/
theorem NumberedBy.numberOf_eq (h : NumberedBy names pieces) (hname : name ∈ names) :
    names[numberOf pieces name]? = some name := by
  obtain ⟨k, hk⟩ := h.used name hname
  have hne : numbersOf pieces name ≠ [] := List.ne_nil_of_mem (mem_numbersOf.mpr hk)
  have hlast : numberOf pieces name ∈ numbersOf pieces name := by
    rw [numberOf, List.getLast?_eq_some_getLast hne]
    exact List.getLast_mem hne
  exact h.number _ _ (mem_numbersOf.mp hlast)

theorem NumberedBy.numberOf_inj (h : NumberedBy names pieces) {name' : List Char}
    (hname : name ∈ names) (hname' : name' ∈ names)
    (heq : numberOf pieces name = numberOf pieces name') : name = name' := by
  have hplace := h.numberOf_eq hname
  rw [heq, h.numberOf_eq hname'] at hplace
  exact (Option.some.inj hplace).symm

/-- Binding the names one after the other gives each number the value of its name. -/
theorem foldl_setDefault (value : List Char → ν) (hname : ∀ k ∈ names, numberOf pieces k =
    numberOf pieces name → k = name) (defaults : ℕ → Option ν) :
    (names.map fun k => (k, value k)).foldl (setDefault pieces) defaults (numberOf pieces name) =
      if name ∈ names then some (value name) else defaults (numberOf pieces name) := by
  induction names generalizing defaults with
  | nil => simp
  | cons k names ih =>
      have hrest := ih (fun k' hk' => hname k' (List.mem_cons_of_mem _ hk'))
      rw [List.map_cons, List.foldl_cons, hrest, setDefault]
      by_cases hk : k = name
      · subst hk
        simp
      · have hnumber : numberOf pieces name ≠ numberOf pieces k := fun heq =>
          hk (hname k List.mem_cons_self heq.symm)
        rw [Function.update_of_ne hnumber]
        simp [Ne.symm hk]

/-- If the parameters are numbered by the names that values are bound to, then every parameter is
sent with the value of its own name. -/
theorem NumberedBy.render_bindAll (h : NumberedBy names pieces) (hnodup : names.Nodup)
    (value : List Char → ν) :
    render pieces (bindAll pieces (names.map fun k => (k, value k))) =
      renderByName pieces value := by
  rw [render, renderByName]
  apply List.map_congr_left
  intro piece hpiece
  cases piece with
  | char c => rfl
  | param n name =>
      have hplace := h.number n name hpiece
      have hname : name ∈ names := List.mem_of_getElem? hplace
      have hlt : n < names.length := (List.getElem?_eq_some_iff.mp hplace).1
      have hnumber : numberOf pieces name = n :=
        ((List.getElem?_inj hlt hnodup).mp (hplace.trans (h.numberOf_eq hname).symm)).symm
      have hbound := foldl_setDefault value
        (fun k hk heq => h.numberOf_inj hk hname heq) fun _ => none
      rw [if_pos hname, hnumber] at hbound
      exact congrArg Token.value hbound

end bind

/-! ### A scanner -/

/-- What has been read of a parameter. -/
inductive Mode
  | text
  | percent
  | number (digits : List Char)
  | name (number : ℕ) (name : List Char)

/-- Up to three digits make a number. A double percent sign stands for one, and one that begins no
parameter for itself; options of quoting are left out. -/
def scanFrom : Mode → List Char → List Piece
  | .text, [] => []
  | .text, c :: rest =>
      if c = '%' then scanFrom .percent rest else .char c :: scanFrom .text rest
  | .percent, [] => [.char '%']
  | .percent, c :: rest =>
      if c = '%' then .char '%' :: scanFrom .text rest
      else if c.isDigit then scanFrom (.number [c]) rest
      else .char '%' :: .char c :: scanFrom .text rest
  | .number digits, [] => [.param (Nat.ofDigitChars 10 digits 0) []]
  | .number digits, c :: rest =>
      if c.isDigit ∧ digits.length < 3 then scanFrom (.number (digits ++ [c])) rest
      else if c = ':' then scanFrom (.name (Nat.ofDigitChars 10 digits 0) []) rest
      else .param (Nat.ofDigitChars 10 digits 0) [] ::
        if c = '%' then scanFrom .percent rest else .char c :: scanFrom .text rest
  | .name n name, [] => [.param n name]
  | .name n name, c :: rest =>
      if isWord c then scanFrom (.name n (name ++ [c])) rest
      else .param n name ::
        if c = ':' then scanFrom .text rest
        else if c = '%' then scanFrom .percent rest
        else .char c :: scanFrom .text rest

theorem scanFrom_number {ds rest : List Char} (hdigits : ∀ d ∈ ds, d.isDigit = true)
    {digits : List Char} (hlength : digits.length + ds.length ≤ 3) :
    scanFrom (.number digits) (ds ++ ':' :: rest) =
      scanFrom (.name (Nat.ofDigitChars 10 (digits ++ ds) 0) []) rest := by
  induction ds generalizing digits with
  | nil =>
      have hcolon : ¬ (Char.isDigit ':' = true ∧ digits.length < 3) := fun h =>
        absurd h.1 (by decide)
      rw [List.nil_append, scanFrom, if_neg hcolon, if_pos rfl, List.append_nil]
  | cons d ds ih =>
      rw [List.length_cons] at hlength
      have hd : d.isDigit = true ∧ digits.length < 3 :=
        ⟨hdigits d List.mem_cons_self, by omega⟩
      have hlength' : (digits ++ [d]).length + ds.length ≤ 3 := by
        rw [List.length_append, List.length_singleton]
        omega
      rw [List.cons_append, scanFrom, if_pos hd,
        ih (fun d' hd' => hdigits d' (List.mem_cons_of_mem _ hd')) hlength', List.append_assoc,
        List.singleton_append]

theorem scanFrom_name {word rest : List Char} (hword : ∀ c ∈ word, isWord c = true)
    (hends : Ends rest) (n : ℕ) (name : List Char) :
    scanFrom (.name n name) (word ++ rest) = .param n (name ++ word) :: scanFrom .text rest := by
  induction word generalizing name with
  | nil =>
      rw [List.nil_append, List.append_nil]
      cases rest with
      | nil => rfl
      | cons c rest =>
          obtain ⟨hc, hcolon⟩ := hends c rfl
          simp only [scanFrom, hc, hcolon, Bool.false_eq_true, if_false]
  | cons c word ih =>
      rw [List.cons_append, scanFrom, if_pos (hword c List.mem_cons_self),
        ih (fun c' hc' => hword c' (List.mem_cons_of_mem _ hc')), List.append_assoc,
        List.singleton_append]

/-- A number that fits into a signed byte has up to three digits. -/
theorem length_digits_le {n : ℕ} (hn : n ≤ 127) : (Nat.toDigits 10 n).length ≤ 3 :=
  (Nat.length_toDigits_le_iff (by decide) (by decide)).mpr (by omega)

def scanner : Scanner where
  scan := scanFrom .text
  scan_nil := rfl
  scan_char c rest h := by rw [scanFrom, if_neg h]
  scan_param n name rest hn _ hname hends := by
    have htext : (toString n).toList = Nat.toDigits 10 n := by
      rw [Nat.toString_eq_ofList_toDigits, String.toList_ofList]
    have hdigits : ∀ d ∈ Nat.toDigits 10 n, d.isDigit = true := fun d hd =>
      Nat.isDigit_of_mem_toDigits (by decide) (by decide) hd
    have hlength := length_digits_le hn
    have hvalue : Nat.ofDigitChars 10 (Nat.toDigits 10 n) 0 = n := Nat.ofDigitChars_ten_toDigits
    obtain ⟨d, ds, hds⟩ := List.exists_cons_of_ne_nil (Nat.toDigits_ne_nil (n := n) (b := 10))
    rw [hds] at hdigits hlength hvalue
    rw [List.length_cons] at hlength
    have hlength' : [d].length + ds.length ≤ 3 := by
      rw [List.length_singleton]
      omega
    have hd : d.isDigit = true := hdigits d List.mem_cons_self
    have hpercent : d ≠ '%' := by
      rintro rfl
      simp at hd
    rw [htext, hds, scanFrom, if_pos rfl, List.cons_append, scanFrom, if_neg hpercent, if_pos hd,
      scanFrom_number (fun d' hd' => hdigits d' (List.mem_cons_of_mem _ hd')) hlength',
      List.singleton_append, hvalue, scanFrom_name hname hends]
    rfl

end Templates
