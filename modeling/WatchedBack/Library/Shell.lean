import Mathlib

/-! How a POSIX shell reads a command line, after the quoting rules of its command language:
an automaton that gives up at the first character that would make the line more than one
simple command of literal words. A pattern of file names and a word that begins with `~` are no
literal words, since what they give is a matter of the files and users. -/

namespace Shell

/-- What the quoting says of the next character. After `$` it may begin an expansion. After the end
of the command only blanks, newlines and comments follow. -/
inductive Mode
  | bare | single | double | escape | doubleEscape | dollar | doubleDollar | comment | ended
  deriving DecidableEq

/-- What follows the unquoted `[` of a word that no `]` has closed yet: nothing, `!`, or more. -/
inductive Bracket
  | closed | opened | negated | filled
  deriving DecidableEq

namespace Bracket

/-- A quoted character. File names are matched between their slashes. -/
def quoted (b : Bracket) (c : Char) : Bracket :=
  if c = '/' ∨ b = .closed then .closed else .filled

/-- An unquoted character. -/
def next (b : Bracket) (c : Char) : Bracket :=
  if c = '/' then .closed
  else if b = .closed then if c = '[' then .opened else .closed
  else if b = .opened ∧ c = '!' then .negated
  else .filled

end Bracket

/-- The words read so far, and the word being read. -/
structure Lexer where
  words : List (List Char)
  current : Option (List Char)
  mode : Mode
  bracket : Bracket
  deriving DecidableEq

/-- A blank of the POSIX locale. -/
def isBlank (c : Char) : Bool := c = ' ' ∨ c = '\t'

/-- Ends a command, joins or groups commands, or redirects. -/
def isOperator (c : Char) : Bool := c ∈ ['|', '&', ';', '<', '>', '(', ')']

/-- Begins a substitution, or makes the word a pattern of file names. -/
def isExpansion (c : Char) : Bool := c ∈ ['`', '*', '?']

/-- What a shell has of its own: the further characters before which `$` begins an expansion, such as
`$[`, or a quote outside of other quotes. -/
structure Dialect where
  expands : Char → Bool

/-- No expansions but those that all shells have. -/
def Dialect.plain : Dialect := ⟨fun _ => false⟩

/-- After `$` it begins an expansion: a name, a special parameter, or a bracket. -/
def Dialect.isParameter (sh : Dialect) (c : Char) : Bool :=
  c.isAlphanum ∨ c ∈ ['_', '@', '*', '#', '?', '-', '$', '!', '{', '('] ∨ sh.expands c

variable (sh : Dialect)

def isQuoting (c : Char) : Bool := c ∈ ['\'', '"', '\\']

namespace Lexer

def start : Lexer := ⟨[], none, .bare, .closed⟩

/-- A quoted character goes into the word. -/
def push (s : Lexer) (c : Char) : Lexer :=
  { s with current := some (s.current.getD [] ++ [c]), bracket := s.bracket.quoted c }

/-- An unquoted character goes into the word. -/
def add (s : Lexer) (c : Char) : Lexer :=
  { s with current := some (s.current.getD [] ++ [c]), bracket := s.bracket.next c }

def endWord (s : Lexer) : Lexer :=
  match s.current with
  | none => s
  | some w => { s with words := s.words ++ [w], current := none, bracket := .closed }

/-- A quote begins a word, or goes on with one. -/
def quote (s : Lexer) (mode : Mode) : Lexer :=
  { s with current := some (s.current.getD []), mode := mode }

/-- A newline ends the command, unless there is none yet. -/
def newline (s : Lexer) : Lexer :=
  { s.endWord with mode := if s.endWord.words = [] then .bare else .ended }

/-- An unquoted character. -/
def stepBare (s : Lexer) (c : Char) : Option Lexer :=
  if c = '\'' then some (s.quote .single)
  else if c = '"' then some (s.quote .double)
  else if c = '\\' then some { s with mode := .escape }
  else if isBlank c then some s.endWord
  else if c = '\n' then some s.newline
  else if c = '$' then some { s with mode := .dollar }
  else if isOperator c ∨ isExpansion c ∨ (c = ']' ∧ s.bracket = .filled) then none
  else if s.current = none ∧ c = '~' then none
  else if s.current = none ∧ c = '#' then some { s with mode := .comment }
  else some (s.add c)

/-- A character between double quotes. -/
def stepDouble (s : Lexer) (c : Char) : Option Lexer :=
  if c = '"' then some { s with mode := .bare }
  else if c = '\\' then some { s with mode := .doubleEscape }
  else if c = '$' then some { s with mode := .doubleDollar }
  else if c = '`' then none
  else some (s.push c)

/-- One character. -/
def step (s : Lexer) (c : Char) : Option Lexer :=
  match s.mode with
  | .bare => s.stepBare c
  | .single => if c = '\'' then some { s with mode := .bare } else some (s.push c)
  | .double => s.stepDouble c
  | .escape =>
      if c = '\n' then some { s with mode := .bare }
      else some { s.push c with mode := .bare }
  | .doubleEscape =>
      if c ∈ ['$', '`', '"', '\\'] then some { s.push c with mode := .double }
      else if c = '\n' then some { s with mode := .double }
      else some { (s.push '\\').push c with mode := .double }
  | .dollar => if sh.isParameter c then none else stepBare { s.add '$' with mode := .bare } c
  | .doubleDollar =>
      if sh.isParameter c ∧ !isQuoting c then none
      else stepDouble { s.push '$' with mode := .double } c
  | .comment => if c = '\n' then some s.newline else some s
  | .ended =>
      if isBlank c ∨ c = '\n' then some s
      else if c = '#' then some { s with mode := .comment }
      else none

def run (s : Lexer) (cs : List Char) : Option Lexer := cs.foldlM (step sh) s

/-- At the end of the line a backslash or `$` stands for itself. -/
def close (s : Lexer) : Lexer :=
  match s.mode with
  | .escape => s.push '\\'
  | .dollar => s.add '$'
  | _ => s

/-- A quote that is still open at the end of the line is an error. -/
def finish (s : Lexer) : Option (List (List Char)) :=
  match s.mode with
  | .single | .double | .doubleEscape | .doubleDollar => none
  | _ => some s.close.endWord.words

end Lexer

/-- The words of a line that is one simple command of literal words. -/
def words (line : List Char) : Option (List (List Char)) :=
  (Lexer.start.run sh line).bind Lexer.finish

/-! ### Words that need no quotes -/

/-- A character that stands for itself inside a word, unless it closes a bracket. -/
def isPlain (c : Char) : Bool :=
  !isQuoting c && !isBlank c && c ≠ '\n' && c ≠ '$' && !isOperator c && !isExpansion c

/-- Every character stands for itself, if it closes no bracket: a backslash does at the end, and `$`
before what begins no expansion. -/
def standsForItself : List Char → Bool
  | [] => true
  | c :: cs =>
      (isPlain c || (c = '\\' && cs.isEmpty) || (c = '$' && !cs.head?.any sh.isParameter)) &&
        standsForItself cs

/-- A `[` that a later `]` closes, with more than `!` and no slash between them. -/
def Bracketed (w : List Char) : Prop :=
  ∃ before inside after, w = before ++ '[' :: (inside ++ ']' :: after) ∧ '/' ∉ inside ∧
    inside ≠ [] ∧ inside ≠ ['!']

/-- A word that the shell reads as it stands. -/
def PlainWord (w : List Char) : Prop :=
  w.head?.isSome ∧ w.head? ≠ some '~' ∧ w.head? ≠ some '#' ∧ standsForItself sh w = true ∧
    ¬ Bracketed w

variable {sh}

/-! ### Brackets -/

namespace Bracket

/-- A `]` that closes the bracket, or one that is opened later. -/
def closes : Bracket → List Char → Bool
  | _, [] => false
  | b, c :: cs => (c = ']' && b = .filled) || (b.next c).closes cs

variable {b : Bracket} {c : Char} {cs : List Char}

/-- What is still missing of a bracket that is closed. -/
def Rest (b : Bracket) (cs : List Char) : Prop :=
  ∃ inside after, cs = inside ++ ']' :: after ∧ '/' ∉ inside ∧
    match b with
    | .closed => False
    | .opened => inside ≠ [] ∧ inside ≠ ['!']
    | .negated => inside ≠ []
    | .filled => True

theorem Rest.filled (h : b.Rest cs) : filled.Rest cs := by
  obtain ⟨inside, after, rfl, hslash, -⟩ := h
  exact ⟨inside, after, rfl, hslash, trivial⟩

theorem not_rest_closed : ¬ closed.Rest cs := by
  rintro ⟨inside, after, -, -, h⟩
  exact h

theorem rest_cons :
    b.Rest (c :: cs) ↔ (c = ']' ∧ b = .filled) ∨ (b ≠ .closed ∧ (b.next c).Rest cs) := by
  constructor
  · rintro ⟨inside, after, heq, hslash, hinside⟩
    cases inside with
    | nil =>
        cases heq
        cases b with
        | closed => exact hinside.elim
        | opened => exact absurd rfl hinside.1
        | negated => exact absurd rfl hinside
        | filled => exact Or.inl ⟨rfl, rfl⟩
    | cons d inside =>
        cases heq
        obtain ⟨hc, hrest⟩ := List.ne_and_not_mem_of_not_mem_cons hslash
        have hfilled : filled.Rest (inside ++ ']' :: after) := ⟨inside, after, rfl, hrest, trivial⟩
        cases b with
        | closed => exact hinside.elim
        | opened =>
            refine Or.inr ⟨by simp, ?_⟩
            by_cases hbang : c = '!'
            · subst hbang
              exact ⟨inside, after, rfl, hrest, fun h => hinside.2 (by rw [h])⟩
            · simpa [next, hc.symm, hbang] using hfilled
        | negated => exact Or.inr ⟨by simp, by simpa [next, hc.symm] using hfilled⟩
        | filled => exact Or.inr ⟨by simp, by simpa [next, hc.symm] using hfilled⟩
  · rintro (⟨rfl, rfl⟩ | ⟨hopen, hrest⟩)
    · exact ⟨[], cs, rfl, by simp, trivial⟩
    · have hc : c ≠ '/' := by
        rintro rfl
        exact not_rest_closed hrest
      obtain ⟨inside, after, rfl, hslash, hinside⟩ := hrest
      refine ⟨c :: inside, after, rfl, List.not_mem_cons_of_ne_of_not_mem hc.symm hslash, ?_⟩
      cases b with
      | closed => exact hopen rfl
      | opened =>
          refine ⟨by simp, ?_⟩
          rintro h
          cases h
          exact hinside rfl
      | negated => simp
      | filled => trivial

theorem bracketed_cons : Bracketed (c :: cs) ↔ Bracketed cs ∨ (c = '[' ∧ opened.Rest cs) := by
  constructor
  · rintro ⟨before, inside, after, heq, hslash, hinside⟩
    cases before with
    | nil =>
        cases heq
        exact Or.inr ⟨rfl, inside, after, rfl, hslash, hinside⟩
    | cons d before =>
        cases heq
        exact Or.inl ⟨before, inside, after, rfl, hslash, hinside⟩
  · rintro (⟨before, inside, after, rfl, h⟩ | ⟨rfl, inside, after, rfl, h⟩)
    · exact ⟨c :: before, inside, after, rfl, h⟩
    · exact ⟨[], inside, after, rfl, h⟩

/-- A `[` inside a bracket opens none, but the first `]` behind it closes the outer one. -/
theorem closes_iff : b.closes cs = true ↔ Bracketed cs ∨ b.Rest cs := by
  induction cs generalizing b with
  | nil => simp [closes, Bracketed, Rest]
  | cons c cs ih =>
      have hclose : b.closes (c :: cs) = true ↔
          (c = ']' ∧ b = .filled) ∨ Bracketed cs ∨ (b.next c).Rest cs := by
        rw [← ih]
        simp [closes]
      rw [hclose, bracketed_cons, rest_cons]
      by_cases hb : b = .closed
      · subst hb
        by_cases hc : c = '['
        · subst hc
          simp [next]
        · have hnext : closed.next c = closed := by simp [next, hc]
          simp [hnext, hc, not_rest_closed]
      · have hinner (h : c = '[' ∧ opened.Rest cs) : (b.next c).Rest cs := by
          obtain ⟨rfl, h⟩ := h
          have hnext : b.next '[' = .filled := by simp [next, hb]
          rw [hnext]
          exact h.filled
        simp only [hb, ne_eq, not_false_eq_true, true_and]
        constructor
        · rintro (h | h | h)
          · exact Or.inr (Or.inl h)
          · exact Or.inl (Or.inl h)
          · exact Or.inr (Or.inr h)
        · rintro ((h | h) | h | h)
          · exact Or.inr (Or.inl h)
          · exact Or.inr (Or.inr (hinner h))
          · exact Or.inl h
          · exact Or.inr (Or.inr h)

theorem closes_closed_iff : closed.closes cs = true ↔ Bracketed cs := by
  rw [closes_iff, or_iff_left not_rest_closed]

end Bracket

instance (w : List Char) : Decidable (Bracketed w) := decidable_of_iff _ Bracket.closes_closed_iff

instance (w : List Char) : Decidable (PlainWord sh w) := inferInstanceAs (Decidable (_ ∧ _))

namespace Lexer

variable {s s' : Lexer} {c : Char} {cs ds : List Char} {ws : List (List Char)} {w : List Char}
  {b : Bracket}

@[simp] theorem run_nil : s.run sh [] = some s := rfl

theorem run_cons : s.run sh (c :: cs) = (s.step sh c).bind fun m => m.run sh cs := rfl

theorem run_append : s.run sh (cs ++ ds) = (s.run sh cs).bind fun m => m.run sh ds := by
  rw [run, List.foldlM_append]
  rfl

theorem stepBare_of_isPlain (hc : isPlain c = true) (hb : c = ']' → s.bracket ≠ .filled)
    (hopen : s.current = none → c ≠ '~' ∧ c ≠ '#') : s.stepBare c = some (s.add c) := by
  simp only [isPlain, isQuoting, Bool.and_eq_true, Bool.not_eq_true', decide_eq_true_eq,
    decide_eq_false_iff_not, List.mem_cons, List.not_mem_nil, or_false, not_or] at hc
  obtain ⟨⟨⟨⟨⟨⟨hq, hd, he⟩, hblank⟩, hn⟩, hdollar⟩, ho⟩, hx⟩ := hc
  have hclose : ¬ (c = ']' ∧ s.bracket = .filled) := fun h => hb h.1 h.2
  simp only [stepBare, hq, hd, he, hblank, hn, hdollar, ho, hx, hclose, if_false, Bool.false_eq_true,
    or_self]
  split_ifs with h₁ h₂
  · exact absurd h₁.2 (hopen h₁.1).1
  · exact absurd h₂.2 (hopen h₂.1).2
  · rfl

/-- Single quotes keep everything up to the next one. -/
theorem run_single (h : '\'' ∉ cs) :
    ∃ b', run sh ⟨ws, some w, .single, b⟩ cs = some ⟨ws, some (w ++ cs), .single, b'⟩ := by
  induction cs generalizing w b with
  | nil => exact ⟨b, by simp⟩
  | cons c cs ih =>
      obtain ⟨hc, hcs⟩ := List.ne_and_not_mem_of_not_mem_cons h
      have hstep : step sh ⟨ws, some w, .single, b⟩ c =
          some ⟨ws, some (w ++ [c]), .single, b.quoted c⟩ := by
        rw [step, if_neg (Ne.symm hc)]
        rfl
      obtain ⟨b', hb'⟩ := ih (w := w ++ [c]) (b := b.quoted c) hcs
      refine ⟨b', ?_⟩
      rw [run_cons, hstep, Option.bind_some, hb', List.append_assoc, List.singleton_append]

/-- `$` before a character that begins no expansion. -/
theorem run_dollar (hm : s.mode = .bare) (hc : sh.isParameter c = false) :
    run sh { s with mode := .dollar } (c :: cs) = run sh (s.add '$') (c :: cs) := by
  have hadd : { ({ s with mode := .dollar } : Lexer).add '$' with mode := .bare } = s.add '$' := by
    rw [add, add, hm]
  rw [run_cons, run_cons]
  congr 1
  simp only [step, hc, Bool.false_eq_true, if_false, hadd, show (s.add '$').mode = .bare from hm]

/-- The rest of a plain word. -/
theorem run_standsForItself (hm : s.mode = .bare) (h : standsForItself sh cs = true)
    (hb : s.bracket.closes cs = false) (hcur : s.current = none → cs ≠ [])
    (hopen : s.current = none → cs.head? ≠ some '~' ∧ cs.head? ≠ some '#') :
    (s.run sh cs).bind finish = some (s.words ++ [s.current.getD [] ++ cs]) := by
  induction cs generalizing s with
  | nil =>
      obtain ⟨w, hw⟩ := Option.ne_none_iff_exists'.mp fun hnone => hcur hnone rfl
      simp [finish, close, endWord, hm, hw]
  | cons c cs ih =>
      obtain ⟨hc, hcs⟩ := Bool.and_eq_true_iff.mp h
      simp only [Bracket.closes, Bool.or_eq_false_iff, Bool.and_eq_false_iff,
        decide_eq_false_iff_not] at hb
      have hnext (t : Lexer) (ht : t = s.add c) :
          (t.run sh cs).bind finish = some (s.words ++ [s.current.getD [] ++ c :: cs]) := by
        subst ht
        rw [ih (s := s.add c) hm hcs hb.2 (by simp [add]) (by simp [add])]
        simp [add]
      have hstep : s.step sh c = s.stepBare c := by rw [step, hm]
      rw [run_cons, hstep]
      rcases Bool.or_eq_true_iff.mp hc with hc | hc
      · rcases Bool.or_eq_true_iff.mp hc with hplain | hescape
        · rw [stepBare_of_isPlain hplain (fun heq => hb.1.resolve_left (absurd heq))
            (fun hnone => by simpa using hopen hnone)]
          exact hnext _ rfl
        · obtain ⟨hc, hnil⟩ := Bool.and_eq_true_iff.mp hescape
          obtain rfl : c = '\\' := by simpa using hc
          obtain rfl : cs = [] := by simpa using hnil
          simp [stepBare, finish, close, push, endWord]
      · obtain ⟨hc, hhead⟩ := Bool.and_eq_true_iff.mp hc
        obtain rfl : c = '$' := by simpa using hc
        have hdollar : s.stepBare '$' = some { s with mode := .dollar } := by
          simp [stepBare, isBlank]
        rw [hdollar, Option.bind_some]
        cases cs with
        | nil => simp [finish, close, add, endWord]
        | cons d ds =>
            rw [run_dollar hm (by simpa using hhead)]
            exact hnext _ rfl

theorem run_plainWord (h : PlainWord sh cs) :
    (run sh ⟨ws, none, .bare, .closed⟩ cs).bind finish = some (ws ++ [cs]) := by
  obtain ⟨hne, htilde, hhash, hplain, hbracket⟩ := h
  have hclosed : Bracket.closed.closes cs = false := by
    rw [← Bool.not_eq_true, Bracket.closes_closed_iff]
    exact hbracket
  have hnil : cs ≠ [] := by
    rintro rfl
    cases hne
  exact run_standsForItself (s := ⟨ws, none, .bare, .closed⟩) rfl hplain hclosed (fun _ => hnil)
    fun _ => ⟨htilde, hhash⟩

/-! ### What a line can give -/

/-- The characters kept, and one for the blank after each word. -/
def kept (s : Lexer) : ℕ :=
  (s.words.map fun w => w.length + 1).sum + (s.current.getD []).length

/-- A backslash or `$` may still be kept. -/
def size (s : Lexer) : ℕ :=
  s.kept + if s.mode ∈ [.escape, .doubleEscape, .dollar, .doubleDollar] then 1 else 0

@[simp] theorem kept_push : (s.push c).kept = s.kept + 1 := by
  simp [kept, push, Nat.add_assoc]

@[simp] theorem kept_add : (s.add c).kept = s.kept + 1 := by
  simp [kept, add, Nat.add_assoc]

@[simp] theorem kept_quote {mode : Mode} : (s.quote mode).kept = s.kept := rfl

@[simp] theorem kept_mode {mode : Mode} : kept ⟨s.words, s.current, mode, b⟩ = s.kept := rfl

@[simp] theorem mode_push : (s.push c).mode = s.mode := rfl

@[simp] theorem mode_add : (s.add c).mode = s.mode := rfl

@[simp] theorem mode_endWord : s.endWord.mode = s.mode := by
  unfold endWord
  split <;> rfl

theorem endWord_of_none (h : s.current = none) : s.endWord = s := by
  rw [endWord, h]

theorem kept_endWord (h : s.current = some w) : s.endWord.kept = s.kept + 1 := by
  simp [kept, endWord, h, Nat.add_assoc]

theorem words_endWord (h : s.current = some w) : s.endWord.words = s.words ++ [w] := by
  rw [endWord, h]

theorem kept_endWord_le : s.endWord.kept ≤ s.kept + 1 := by
  cases h : s.current with
  | none => simp [endWord_of_none h]
  | some w => exact (kept_endWord h).le

@[simp] theorem kept_newline : s.newline.kept = s.endWord.kept := rfl

theorem mode_newline : s.newline.mode = .bare ∨ s.newline.mode = .ended := by
  unfold newline
  by_cases h : s.endWord.words = [] <;> simp [h]

theorem size_of_mode (h : s.mode ∉ [.escape, .doubleEscape, .dollar, .doubleDollar]) :
    s.size = s.kept := by
  rw [size, if_neg h, Nat.add_zero]

theorem size_of_bare (h : s.mode = .bare) : s.size = s.kept := size_of_mode (by simp [h])

theorem size_newline : s.newline.size = s.endWord.kept := by
  rw [size_of_mode (by rcases mode_newline (s := s) with h | h <;> simp [h]), kept_newline]

/-- What an unquoted character can do. -/
theorem stepBare_cases (h : s.stepBare c = some s') :
    (s' = s.add c ∧ isPlain c = true ∧ (c = ']' → s.bracket ≠ .filled) ∧
        (s.current = none → c ≠ '~' ∧ c ≠ '#')) ∨
      (c = '\\' ∧ s' = { s with mode := .escape }) ∨
      (c = '$' ∧ s' = { s with mode := .dollar }) ∨
      (c ≠ '\'' ∧ (s' = s.endWord ∨ s' = s.newline)) ∨
      ∃ mode ∈ [.single, .double, .comment], s' = s.quote mode ∨ s' = { s with mode := mode } := by
  unfold stepBare at h
  split_ifs at h with hq hd he hb hn hdollar ho htilde hhash
  all_goals cases h
  · exact Or.inr (Or.inr (Or.inr (Or.inr ⟨.single, by simp, Or.inl rfl⟩)))
  · exact Or.inr (Or.inr (Or.inr (Or.inr ⟨.double, by simp, Or.inl rfl⟩)))
  · exact Or.inr (Or.inl ⟨he, rfl⟩)
  · exact Or.inr (Or.inr (Or.inr (Or.inl ⟨hq, Or.inl rfl⟩)))
  · exact Or.inr (Or.inr (Or.inr (Or.inl ⟨hq, Or.inr rfl⟩)))
  · exact Or.inr (Or.inr (Or.inl ⟨hdollar, rfl⟩))
  · exact Or.inr (Or.inr (Or.inr (Or.inr ⟨.comment, by simp, Or.inr rfl⟩)))
  · refine Or.inl ⟨rfl, ?_, fun hc hf => ho (Or.inr (Or.inr ⟨hc, hf⟩)),
      fun hcur => ⟨fun h => htilde ⟨hcur, h⟩, fun h => hhash ⟨hcur, h⟩⟩⟩
    simp only [not_or] at ho
    simp [isPlain, isQuoting, hq, hd, he, hb, hn, hdollar, ho]

theorem size_stepBare (hm : s.mode = .bare) (h : s.stepBare c = some s') :
    s'.size ≤ s.size + 1 := by
  rw [size_of_bare hm]
  rcases stepBare_cases h with
    ⟨rfl, -, -⟩ | ⟨-, rfl⟩ | ⟨-, rfl⟩ | ⟨-, rfl | rfl⟩ | ⟨mode, hmode, rfl | rfl⟩
  · rw [size_of_bare (mode_add.trans hm), kept_add]
  · simp [size]
  · simp [size]
  · rw [size_of_bare (mode_endWord.trans hm)]
    exact kept_endWord_le
  · rw [size_newline]
    exact kept_endWord_le
  · rw [size_of_mode (by fin_cases hmode <;> simp [quote]), kept_quote]
    omega
  · rw [size_of_mode (by fin_cases hmode <;> simp), kept_mode]
    omega

/-- A character gives at most one. -/
theorem size_step (h : s.step sh c = some s') : s'.size ≤ s.size + 1 := by
  unfold step at h
  split at h
  · next hm => exact size_stepBare hm h
  · next hm => split_ifs at h <;> cases h <;> simp [size, hm]
  · next hm =>
    unfold stepDouble at h
    split_ifs at h <;> cases h <;> simp [size, hm]
  · next hm =>
    split_ifs at h <;> cases h
    all_goals
      simp [size, hm]
      try omega
  · next hm =>
    split_ifs at h <;> cases h
    all_goals
      simp [size, hm]
      try omega
  · next hm =>
    split_ifs at h
    have hle := size_stepBare rfl h
    simpa [size, hm] using hle
  · next hm =>
    split_ifs at h
    unfold stepDouble at h
    split_ifs at h <;> cases h <;> simp [size, hm]
  · next hm =>
    split_ifs at h <;> cases h
    · rw [size_newline, size_of_mode (s := s) (by simp [hm])]
      exact kept_endWord_le
    · omega
  · next hm => split_ifs at h <;> cases h <;> simp [size, hm]

theorem size_run (h : s.run sh cs = some s') : s'.size ≤ s.size + cs.length := by
  induction cs generalizing s with
  | nil =>
      cases h
      simp
  | cons c cs ih =>
      obtain ⟨m, hm, hrest⟩ := Option.bind_eq_some_iff.mp (run_cons ▸ h)
      have h₁ := size_step hm
      have h₂ := ih hrest
      rw [List.length_cons]
      omega

/-- Words are only added. -/
theorem words_step (h : s.step sh c = some s') : s.words <+: s'.words := by
  have hend (t : Lexer) : t.words <+: t.endWord.words := by
    cases hc : t.current with
    | none => rw [endWord_of_none hc]
    | some w =>
        rw [words_endWord hc]
        exact List.prefix_append _ _
  have hbare (t t' : Lexer) (h : t.stepBare c = some t') : t.words <+: t'.words := by
    rcases stepBare_cases h with
      ⟨rfl, -, -⟩ | ⟨-, rfl⟩ | ⟨-, rfl⟩ | ⟨-, rfl | rfl⟩ | ⟨mode, hmode, rfl | rfl⟩
    · exact List.prefix_refl _
    · exact List.prefix_refl _
    · exact List.prefix_refl _
    · exact hend t
    · exact hend t
    · exact List.prefix_refl _
    · exact List.prefix_refl _
  unfold step at h
  split at h
  · exact hbare s s' h
  case h_6 =>
    split_ifs at h
    have hadd := hbare _ s' h
    exact hadd
  all_goals
    try unfold stepDouble at h
    split_ifs at h <;> cases h <;> first | exact List.prefix_refl _ | exact hend s

theorem words_run (h : s.run sh cs = some s') : s.words <+: s'.words := by
  induction cs generalizing s with
  | nil =>
      cases h
      exact List.prefix_refl _
  | cons c cs ih =>
      obtain ⟨m, hm, hrest⟩ := Option.bind_eq_some_iff.mp (run_cons ▸ h)
      exact (words_step hm).trans (ih hrest)

/-! Where every character gives one, none of them quotes. -/

/-- After a backslash no character gives one. -/
theorem size_step_escape (hm : s.mode = .escape) (h : s.step sh c = some s') : s'.size ≤ s.size := by
  rw [step, hm] at h
  dsimp only at h
  split_ifs at h <;> cases h <;> simp [size, hm]

/-- Splitting the gain of a run off at its first character. -/
theorem gain_cons {m : Lexer} (hm : s.step sh c = some m) (hrest : m.run sh cs = some s')
    (hsize : s'.size = s.size + (c :: cs).length) :
    m.size = s.size + 1 ∧ s'.size = m.size + cs.length := by
  have h₁ := size_step hm
  have h₂ := size_run hrest
  rw [List.length_cons] at hsize
  omega

/-- A backslash that gives one is the last character. -/
theorem nil_of_gain (hm : s.mode = .escape) (h : s.run sh cs = some s')
    (hsize : s'.size = s.size + cs.length) : cs = [] := by
  cases cs with
  | nil => rfl
  | cons c cs =>
      obtain ⟨m, hstep, hrest⟩ := Option.bind_eq_some_iff.mp (run_cons ▸ h)
      have := size_step_escape hm hstep
      have := (gain_cons hstep hrest hsize).1
      omega

/-- `$` that gives one stands before the end, or before what begins no expansion. -/
theorem dollar_of_gain (hm : s.mode = .bare) (h : run sh { s with mode := .dollar } cs = some s')
    (hsize : s'.size = s.size + ('$' :: cs).length) :
    cs = [] ∨ cs.head?.any sh.isParameter = false ∧ (s.add '$').run sh cs = some s' ∧
      s'.size = (s.add '$').size + cs.length := by
  cases cs with
  | nil => exact Or.inl rfl
  | cons d ds =>
      have hd : sh.isParameter d = false := by
        rw [← Bool.not_eq_true]
        intro hd
        rw [run_cons, step] at h
        simp [hd] at h
      rw [run_dollar hm hd] at h
      refine Or.inr ⟨by simpa using hd, h, ?_⟩
      rw [size_of_bare hm, List.length_cons] at hsize
      rw [size_of_bare (mode_add.trans hm), kept_add]
      omega

/-- What gives one: a character that is kept, a backslash, `$`, or the end of a word. -/
theorem stepBare_of_gain (hm : s.mode = .bare) (h : s.step sh c = some s')
    (hsize : s'.size = s.size + 1) :
    (s' = s.add c ∧ isPlain c = true ∧ (c = ']' → s.bracket ≠ .filled) ∧
        (s.current = none → c ≠ '~' ∧ c ≠ '#')) ∨
      (c = '\\' ∧ s' = { s with mode := .escape }) ∨
      (c = '$' ∧ s' = { s with mode := .dollar }) ∨
      (c ≠ '\'' ∧ s'.words ≠ s.words ∧ (s'.mode = .bare ∨ s'.mode = .ended)) := by
  have hs : s.size = s.kept := size_of_bare hm
  have hend (hk : s.endWord.kept = s.kept + 1) : s.endWord.words ≠ s.words := by
    cases hc : s.current with
    | none => simp [endWord_of_none hc] at hk
    | some w => simp [words_endWord hc]
  rw [step, hm] at h
  rcases stepBare_cases h with
    hadd | hescape | hdollar | ⟨hc, rfl | rfl⟩ | ⟨mode, hmode, rfl | rfl⟩
  · exact Or.inl hadd
  · exact Or.inr (Or.inl hescape)
  · exact Or.inr (Or.inr (Or.inl hdollar))
  · rw [hs, size_of_bare (mode_endWord.trans hm)] at hsize
    exact Or.inr (Or.inr (Or.inr ⟨hc, hend hsize, Or.inl (mode_endWord.trans hm)⟩))
  · rw [hs, size_newline] at hsize
    exact Or.inr (Or.inr (Or.inr ⟨hc, hend hsize, mode_newline⟩))
  · rw [hs, size_of_mode (by fin_cases hmode <;> simp [quote]), kept_quote] at hsize
    omega
  · rw [hs, size_of_mode (by fin_cases hmode <;> simp), kept_mode] at hsize
    omega

theorem size_step_ended (hm : s.mode = .ended) (h : s.step sh c = some s') : s'.size = s.size := by
  rw [step, hm] at h
  dsimp only at h
  split_ifs at h <;> cases h <;> simp [size, hm]

theorem notMem_of_gain (hm : s.mode = .bare ∨ s.mode = .ended) (h : s.run sh cs = some s')
    (hsize : s'.size = s.size + cs.length) : '\'' ∉ cs := by
  induction cs generalizing s with
  | nil => simp
  | cons c cs ih =>
      obtain ⟨m, hstep, hrest⟩ := Option.bind_eq_some_iff.mp (run_cons ▸ h)
      obtain ⟨hgain, hsize'⟩ := gain_cons hstep hrest hsize
      rcases hm with hm | hm
      · rcases stepBare_of_gain hm hstep hgain with
          ⟨rfl, hplain, -⟩ | ⟨rfl, rfl⟩ | ⟨rfl, rfl⟩ | ⟨hc, -, hmode⟩
        · refine List.not_mem_cons_of_ne_of_not_mem ?_ (ih (Or.inl (mode_add.trans hm)) hrest hsize')
          rintro rfl
          exact absurd hplain (by decide)
        · rw [nil_of_gain rfl hrest hsize']
          decide
        · rcases dollar_of_gain hm hrest hsize with rfl | ⟨-, hrun, hrun'⟩
          · decide
          · exact List.not_mem_cons_of_ne_of_not_mem (by decide)
              (ih (Or.inl (mode_add.trans hm)) hrun hrun')
        · exact List.not_mem_cons_of_ne_of_not_mem hc.symm (ih hmode hrest hsize')
      · have := size_step_ended hm hstep
        omega

/-- Where moreover no word ends, the characters are those of one plain word. -/
theorem plain_of_gain (hm : s.mode = .bare) (h : s.run sh cs = some s')
    (hsize : s'.size = s.size + cs.length) (hwords : s'.words = s.words) :
    standsForItself sh cs = true ∧ s.bracket.closes cs = false ∧
      (s.current = none → cs.head? ≠ some '~' ∧ cs.head? ≠ some '#') := by
  induction cs generalizing s with
  | nil => simp [standsForItself, Bracket.closes]
  | cons c cs ih =>
      obtain ⟨m, hstep, hrest⟩ := Option.bind_eq_some_iff.mp (run_cons ▸ h)
      obtain ⟨hgain, hsize'⟩ := gain_cons hstep hrest hsize
      have hmw : m.words = s.words :=
        ((hwords ▸ words_run hrest).eq_of_length_le (words_step hstep).length_le)
      rcases stepBare_of_gain hm hstep hgain with
        ⟨rfl, hplain, hclose, hopen⟩ | ⟨rfl, rfl⟩ | ⟨rfl, rfl⟩ | ⟨-, hne, -⟩
      · obtain ⟨hcs, hbracket, -⟩ := ih (mode_add.trans hm) hrest hsize' hwords
        have hc : ¬ (c = ']' ∧ s.bracket = .filled) := fun h => hclose h.1 h.2
        refine ⟨by simp [standsForItself, hplain, hcs], ?_, fun hcur => by simpa using hopen hcur⟩
        rw [Bracket.closes, show (s.bracket.next c).closes cs = false from hbracket]
        simpa using hc
      · obtain rfl := nil_of_gain rfl hrest hsize'
        simp [standsForItself, Bracket.closes]
      · rcases dollar_of_gain hm hrest hsize with rfl | ⟨hhead, hrun, hrun'⟩
        · simp [standsForItself, Bracket.closes]
        · obtain ⟨hcs, hbracket, -⟩ := ih (mode_add.trans hm) hrun hrun' hwords
          refine ⟨by simp [standsForItself, hhead, hcs], ?_, by simp⟩
          rw [Bracket.closes, show (s.bracket.next '$').closes cs = false from hbracket]
          simp
      · exact absurd hmw hne

/-! A quoted word and a word without quotes -/

theorem run_quote (h : '\'' ∉ cs) :
    ∃ b, run sh ⟨ws, none, .bare, .closed⟩ ('\'' :: cs ++ '\'' :: ds) =
      run sh ⟨ws, some cs, .bare, b⟩ ds := by
  obtain ⟨b, hb⟩ : ∃ b, run sh ⟨ws, some [], .single, .closed⟩ cs = some ⟨ws, some cs, .single, b⟩ :=
    run_single h
  have hopen : step sh ⟨ws, none, .bare, .closed⟩ '\'' = some ⟨ws, some [], .single, .closed⟩ := rfl
  have hclose : step sh ⟨ws, some cs, .single, b⟩ '\'' = some ⟨ws, some cs, .bare, b⟩ := rfl
  refine ⟨b, ?_⟩
  rw [List.cons_append, run_cons, hopen, Option.bind_some, run_append, hb,
    Option.bind_some, run_cons, hclose, Option.bind_some]

theorem run_quoted {title dest : List Char} (h : '\'' ∉ title) :
    run sh ⟨ws, none, .bare, .closed⟩ ('\'' :: title ++ '\'' :: ' ' :: dest) =
      run sh ⟨ws ++ [title], none, .bare, .closed⟩ dest := by
  obtain ⟨b, hb⟩ : ∃ b, run sh ⟨ws, none, .bare, .closed⟩ ('\'' :: title ++ '\'' :: ' ' :: dest) =
      run sh ⟨ws, some title, .bare, b⟩ (' ' :: dest) := run_quote h
  rw [hb]
  rfl

/-- What is kept until the end of the line. -/
theorem kept_close (h : s.finish.isSome = true) : s.close.kept = s.size ∧ s.close.words = s.words := by
  unfold finish at h
  unfold close size
  cases hm : s.mode with
  | escape => simp [push, kept, Nat.add_assoc]
  | dollar => simp [add, kept, Nat.add_assoc]
  | bare | comment | ended => simp
  | single | double | doubleEscape | doubleDollar => simp [hm] at h

/-- What a finished line has kept, if it ends with the given words. -/
theorem le_size_of_finish {title dest : List Char} (h : s.finish = some (ws ++ [title, dest])) :
    (s.words = ws ++ [title] ∧ s.size = kept ⟨ws ++ [title], some dest, .bare, .closed⟩) ∨
      s.size = kept ⟨ws ++ [title, dest], none, .bare, .closed⟩ := by
  obtain ⟨hkept, hsame⟩ := kept_close (Option.isSome_iff_exists.mpr ⟨_, h⟩)
  have hwords : s.close.endWord.words = ws ++ [title, dest] := by
    unfold finish at h
    split at h
    · cases h
    · cases h
    · cases h
    · cases h
    · exact Option.some.inj h
  rw [← hkept, ← hsame]
  cases hc : s.close.current with
  | none =>
      rw [endWord_of_none hc] at hwords
      exact Or.inr (by simp [kept, hwords, hc])
  | some w =>
      have hsplit : s.close.words ++ [w] = (ws ++ [title]) ++ [dest] := by
        rw [← words_endWord hc, hwords, List.append_assoc]
        rfl
      obtain ⟨hws, hw⟩ := List.append_inj' hsplit rfl
      obtain rfl : w = dest := by simpa using hw
      exact Or.inl ⟨hws, by rw [kept, kept, hws, hc]⟩

/-- A quote inside the quoted word leaves too few characters for both words. -/
theorem notMem_of_finish {title dest : List Char}
    (h : run sh ⟨ws, none, .bare, .closed⟩ ('\'' :: title ++ '\'' :: ' ' :: dest) = some s)
    (hf : s.finish = some (ws ++ [title, dest])) : '\'' ∉ title := by
  intro hmem
  obtain ⟨u, v, rfl, hu⟩ := List.eq_append_cons_of_mem hmem
  -- the first quote of the title closes the opening one
  obtain ⟨b, hb⟩ : ∃ b, run sh ⟨ws, none, .bare, .closed⟩
      ('\'' :: u ++ '\'' :: (v ++ '\'' :: ' ' :: dest)) =
        run sh ⟨ws, some u, .bare, b⟩ (v ++ '\'' :: ' ' :: dest) := run_quote hu
  have hrest : run sh ⟨ws, some u, .bare, b⟩ (v ++ '\'' :: ' ' :: dest) = some s := by
    rw [← hb, ← h]
    simp
  have hle := size_run hrest
  have hsize : s.size = size ⟨ws, some u, .bare, b⟩ + (v ++ '\'' :: ' ' :: dest).length := by
    rcases le_size_of_finish hf with ⟨-, hs⟩ | hs
    all_goals
      rw [hs] at hle ⊢
      simp [size, kept] at hle ⊢
      omega
  exact notMem_of_gain (Or.inl rfl) hrest hsize (by simp)

theorem plainWord_of_finish {dest title : List Char}
    (h : run sh ⟨ws ++ [title], none, .bare, .closed⟩ dest = some s)
    (hf : s.finish = some (ws ++ [title, dest])) : PlainWord sh dest := by
  have hle := size_run h
  rcases le_size_of_finish hf with ⟨hwords, hs⟩ | hs
  · have hsize : s.size = size ⟨ws ++ [title], none, .bare, .closed⟩ + dest.length := by
      rw [hs]
      simp [size, kept]
    obtain ⟨hplain, hbracket, hopen⟩ := plain_of_gain rfl h hsize hwords
    refine ⟨?_, (hopen rfl).1, (hopen rfl).2, hplain, ?_⟩
    · cases dest with
      | nil =>
          cases h
          simp [finish, close, endWord] at hf
      | cons c cs => rfl
    · rw [← Bracket.closes_closed_iff]
      exact Bool.eq_false_iff.mp hbracket
  · rw [hs] at hle
    simp [size, kept] at hle
    omega

end Lexer

/-- A line that ends with one word between single quotes and one without quotes gives these
two words exactly when the one has no single quote and the other is plain. -/
theorem words_quoted_iff {pre title dest : List Char} {ws : List (List Char)}
    (hpre : Lexer.start.run sh pre = some ⟨ws, none, .bare, .closed⟩) :
    words sh (pre ++ ('\'' :: title ++ '\'' :: ' ' :: dest)) = some (ws ++ [title, dest]) ↔
      '\'' ∉ title ∧ PlainWord sh dest := by
  rw [words, Lexer.run_append, hpre, Option.bind_some]
  constructor
  · intro h
    obtain ⟨s, hs, hf⟩ := Option.bind_eq_some_iff.mp h
    have htitle := Lexer.notMem_of_finish hs hf
    exact ⟨htitle, Lexer.plainWord_of_finish (Lexer.run_quoted htitle ▸ hs) hf⟩
  · rintro ⟨htitle, hdest⟩
    rw [Lexer.run_quoted htitle, Lexer.run_plainWord hdest, List.append_assoc]
    rfl

example : PlainWord .plain "a[b$".toList ∧ PlainWord .plain "a\\".toList ∧
    ¬ PlainWord .plain "a[b]".toList := by decide

/-! ### Characters that a line does not have -/

namespace Lexer

/-- The character stands in no word. -/
def Free (x : Char) (s : Lexer) : Prop := (∀ w ∈ s.words, x ∉ w) ∧ x ∉ s.current.getD []

variable {s s' : Lexer} {c x : Char} {cs : List Char}

theorem Free.push (h : s.Free x) (hc : c ≠ x) : (s.push c).Free x := by
  refine ⟨h.1, ?_⟩
  simp only [Lexer.push, Option.getD_some, List.mem_append, List.mem_singleton, not_or]
  exact ⟨h.2, hc.symm⟩

theorem Free.add (h : s.Free x) (hc : c ≠ x) : (s.add c).Free x := h.push hc

theorem Free.endWord (h : s.Free x) : s.endWord.Free x := by
  cases hc : s.current with
  | none => rwa [endWord_of_none hc]
  | some w =>
      have hw : x ∉ w := by simpa [hc] using h.2
      simp only [Free, Lexer.endWord, hc, Option.getD_none]
      refine ⟨List.forall_mem_append.mpr ⟨h.1, ?_⟩, by simp⟩
      simpa using hw

theorem Free.stepBare (h : s.Free x) (hc : c ≠ x) (hs : s.stepBare c = some s') : s'.Free x := by
  rcases stepBare_cases hs with
    ⟨rfl, -, -⟩ | ⟨-, rfl⟩ | ⟨-, rfl⟩ | ⟨-, rfl | rfl⟩ | ⟨mode, hmode, rfl | rfl⟩
  · exact h.add hc
  · exact h
  · exact h
  · exact h.endWord
  · exact h.endWord
  · exact h
  · exact h

theorem Free.stepDouble (h : s.Free x) (hc : c ≠ x) (hs : s.stepDouble c = some s') :
    s'.Free x := by
  unfold Lexer.stepDouble at hs
  split_ifs at hs <;> cases hs <;> first | exact h | exact h.push hc

/-- Only characters of the line, backslashes and `$` are put into words. -/
theorem Free.step (h : s.Free x) (hx : x ≠ '\\') (hx' : x ≠ '$') (hc : c ≠ x)
    (hs : s.step sh c = some s') : s'.Free x := by
  unfold Lexer.step at hs
  split at hs
  case h_1 => exact h.stepBare hc hs
  case h_3 => exact h.stepDouble hc hs
  case h_6 =>
    split_ifs at hs
    have hadd : Free x { s.add '$' with mode := .bare } := h.add hx'.symm
    exact hadd.stepBare hc hs
  case h_7 =>
    split_ifs at hs
    have hpush : Free x { s.push '$' with mode := .double } := h.push hx'.symm
    exact hpush.stepDouble hc hs
  all_goals
    split_ifs at hs <;> cases hs <;>
      first | exact h | exact h.push hc | exact (h.push hx.symm).push hc | exact h.endWord

theorem Free.run (h : s.Free x) (hx : x ≠ '\\') (hx' : x ≠ '$') (hcs : x ∉ cs)
    (hs : s.run sh cs = some s') : s'.Free x := by
  induction cs generalizing s with
  | nil =>
      cases hs
      exact h
  | cons c cs ih =>
      obtain ⟨m, hm, hrest⟩ := Option.bind_eq_some_iff.mp (run_cons ▸ hs)
      obtain ⟨hc, hcs⟩ := List.ne_and_not_mem_of_not_mem_cons hcs
      exact ih (h.step hx hx' hc.symm hm) hcs hrest

theorem Free.close (h : s.Free x) (hx : x ≠ '\\') (hx' : x ≠ '$') : s.close.Free x := by
  unfold Lexer.close
  split
  · exact h.push hx.symm
  · exact h.add hx'.symm
  · exact h

end Lexer

theorem notMem_of_words {line w : List Char} {ws : List (List Char)} {x : Char} (hx : x ≠ '\\')
    (hx' : x ≠ '$') (hline : x ∉ line) (h : words sh line = some ws) (hw : w ∈ ws) : x ∉ w := by
  obtain ⟨s, hs, hf⟩ := Option.bind_eq_some_iff.mp h
  have hfree : s.Free x :=
    Lexer.Free.run ⟨by simp [Lexer.start], by simp [Lexer.start]⟩ hx hx' hline hs
  unfold Lexer.finish at hf
  split at hf
  · cases hf
  · cases hf
  · cases hf
  · cases hf
  · cases hf
    exact (hfree.close hx hx').endWord.1 w hw

end Shell
