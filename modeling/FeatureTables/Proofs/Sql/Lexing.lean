import FeatureTables.Proofs.Number.Reading
import FeatureTables.Sql

/-!
The words of a script. A reader goes over the characters and keeps where it is: in a name or a text between
quotes, in a number, a word or a comment, or between them (`Lexer.feed`). A quote inside of a name or a text
is doubled, so what stands between quotes is one token with just these characters (`lexes_quoted`). Pieces
that are each read as tokens of their own are read so one after the other (`Runs.append`).
-/

namespace FeatureTables.Sql

open Number

/-! ### Tokens -/

inductive Token where
  /-- A key word, or a name without quotes. -/
  | word (s : String)
  /-- What stands between double quotes. -/
  | name (s : String)
  /-- What stands between single quotes. -/
  | text (s : String)
  | number (d : Decimal)
  | mark (c : Char)
deriving DecidableEq

/-- Where the reader is; what it has read of a token comes with the last character first. -/
inductive Mode where
  | gap
  | word (cs : List Char)
  | number (cs : List Char)
  | inside (quote : Char) (cs : List Char)
  /-- Behind a quote: the end, or the first one of two. -/
  | behind (quote : Char) (cs : List Char)
  | point
  | dash
  | slash
  /-- A comment up to the end of the line. -/
  | line
  /-- A comment up to a star and a slash, and behind a star in it. -/
  | comment
  | star
  | failed
deriving DecidableEq

def isBlank (c : Char) : Bool := c = ' ' || c = '\n' || c = '\t' || c = '\r' || c = '\x0c'

def isQuote (c : Char) : Bool := c = '\x27' || c = '\x22'

def startsWord (c : Char) : Bool := c.isAlpha || c = '_' || 128 ≤ c.toNat

def continuesWord (c : Char) : Bool := startsWord c || c.isDigit || c = '$'

/-- A number goes on with digits, a point and an exponent, behind which there may be a sign. -/
def continuesNumber (cs : List Char) (c : Char) : Bool :=
  continuesWord c || c = '.' ||
    ((c = '+' || c = '-') && (cs.head? = some 'e' || cs.head? = some 'E'))

/-- The tokens that end where a mode is left. -/
def Mode.tokens? : Mode → Option (List Token)
  | .gap | .line => some []
  | .word cs => some [.word (String.ofList cs.reverse)]
  | .number cs => (Decimal.read? cs.reverse).map fun d => [.number d]
  | .behind quote cs =>
    some [if quote = '\x22' then .name (String.ofList cs.reverse) else .text (String.ofList cs.reverse)]
  | .point => some [.mark '.']
  | .dash => some [.mark '-']
  | .slash => some [.mark '/']
  | .inside _ _ | .comment | .star | .failed => none

structure Lexer where
  tokens : List Token := []
  mode : Mode := .gap
deriving DecidableEq

namespace Lexer

/-- Begins a token. -/
def start (ts : List Token) (c : Char) : Lexer :=
  if isBlank c then ⟨ts, .gap⟩
  else if isQuote c then ⟨ts, .inside c []⟩
  else if c.isDigit then ⟨ts, .number [c]⟩
  else if startsWord c then ⟨ts, .word [c]⟩
  else if c = '.' then ⟨ts, .point⟩
  else if c = '-' then ⟨ts, .dash⟩
  else if c = '/' then ⟨ts, .slash⟩
  else ⟨ts ++ [.mark c], .gap⟩

/-- Ends a token and begins the next one. -/
def leave (l : Lexer) (c : Char) : Lexer :=
  match l.mode.tokens? with
  | some ts => start (l.tokens ++ ts) c
  | none => ⟨l.tokens, .failed⟩

/-- Reads one character. -/
def feed (l : Lexer) (c : Char) : Lexer :=
  match l.mode with
  | .gap => start l.tokens c
  | .word cs => if continuesWord c then ⟨l.tokens, .word (c :: cs)⟩ else l.leave c
  | .number cs => if continuesNumber cs c then ⟨l.tokens, .number (c :: cs)⟩ else l.leave c
  | .inside quote cs =>
    if c = quote then ⟨l.tokens, .behind quote cs⟩ else ⟨l.tokens, .inside quote (c :: cs)⟩
  | .behind quote cs => if c = quote then ⟨l.tokens, .inside quote (c :: cs)⟩ else l.leave c
  | .point => if c.isDigit then ⟨l.tokens, .number [c, '.']⟩ else l.leave c
  | .dash => if c = '-' then ⟨l.tokens, .line⟩ else l.leave c
  | .slash => if c = '*' then ⟨l.tokens, .comment⟩ else l.leave c
  | .line => if c = '\n' then ⟨l.tokens, .gap⟩ else l
  | .comment => if c = '*' then ⟨l.tokens, .star⟩ else l
  | .star =>
    if c = '/' then ⟨l.tokens, .gap⟩ else if c = '*' then l else ⟨l.tokens, .comment⟩
  | .failed => l

/-- The tokens at the end. -/
def finish (l : Lexer) : Option (List Token) := l.mode.tokens?.map (l.tokens ++ ·)

end Lexer

/-- The tokens of a script; there are none if it ends in a name, a text or a comment, or if a number is no
decimal. -/
def tokens? (s : String) : Option (List Token) := (s.toList.foldl Lexer.feed {}).finish

/-! ### Pieces -/

/-- Characters that are read as whole tokens, with nothing left over. -/
def Runs (xs : List Char) (ts : List Token) : Prop :=
  ∀ before, xs.foldl Lexer.feed ⟨before, .gap⟩ = ⟨before ++ ts, .gap⟩

/-- What may stand behind the tokens of a statement. -/
def isDelimiter (c : Char) : Bool := c = ' ' || c = ',' || c = '(' || c = ')' || c = ';'

/-- Characters that are read as tokens as soon as a delimiter comes. -/
def Lexes (xs : List Char) (ts : List Token) : Prop :=
  ∀ before d, isDelimiter d = true →
    (xs ++ [d]).foldl Lexer.feed ⟨before, .gap⟩ = Lexer.start (before ++ ts) d

section Pieces

variable {xs ys : List Char} {ts us : List Token} {c : Char}

theorem runs_nil : Runs [] [] := fun before => by rw [List.append_nil]; rfl

theorem Runs.append (h : Runs xs ts) (h' : Runs ys us) : Runs (xs ++ ys) (ts ++ us) := by
  intro before
  rw [List.foldl_append, h, h', List.append_assoc]

theorem Runs.lexes (h : Runs xs ts) : Lexes xs ts := by
  intro before d _
  rw [List.foldl_append, h]
  rfl

theorem Lexes.blank (h : Lexes xs ts) : Runs (xs ++ [' ']) ts := fun before => h before ' ' rfl

/-- A delimiter that is a token itself. -/
theorem Lexes.mark (h : Lexes xs ts) (hc : isDelimiter c = true) (hne : c ≠ ' ') :
    Runs (xs ++ [c]) (ts ++ [.mark c]) := by
  intro before
  rw [h before c hc, ← List.append_assoc]
  simp only [isDelimiter, Bool.or_eq_true, decide_eq_true_eq] at hc
  rcases hc with (((rfl | rfl) | rfl) | rfl) | rfl
  · exact absurd rfl hne
  · rfl
  · rfl
  · rfl
  · rfl

theorem Runs.tokens? {s : String} (h : Runs s.toList ts) : tokens? s = some ts := by
  rw [Sql.tokens?, h []]
  exact congrArg some (List.append_nil ts)

/-- Items with a comma and a blank between them, up to the closing bracket. -/
theorem runs_list {α : Type} (text : α → String) (tokensOf : α → List Token) {as : List α}
    (hne : as ≠ []) (h : ∀ a ∈ as, Lexes (text a).toList (tokensOf a)) :
    Runs ((String.intercalate ", " (as.map text)).toList ++ [')'])
      ([.mark ','].intercalate (as.map tokensOf) ++ [.mark ')']) := by
  induction as with
  | nil => contradiction
  | cons a as ih =>
    obtain ⟨ha, has⟩ := List.forall_mem_cons.1 h
    cases as with
    | nil => simpa using ha.mark (c := ')') rfl (by decide)
    | cons b as =>
      have hblank : Runs [' '] [] := runs_nil.lexes.blank
      have hrest := (ha.mark (c := ',') rfl (by decide)).append
        (hblank.append (ih (List.cons_ne_nil _ _) has))
      rw [List.map_cons, List.map_cons, String.intercalate_cons_cons, String.toList_append,
        String.toList_append, List.map_cons, List.map_cons,
        List.intercalate_cons_of_ne_nil (List.cons_ne_nil _ _)]
      simpa using hrest

end Pieces

/-! ### Quotes, words and numbers -/

section Atoms

variable {cs : List Char} {d : Decimal}

theorem not_quote_of_isDelimiter {c quote : Char} (hquote : isQuote quote = true)
    (hc : isDelimiter c = true) : c ≠ quote := by
  rintro rfl
  simp only [isQuote, Bool.or_eq_true, decide_eq_true_eq] at hquote
  rcases hquote with rfl | rfl
  · cases hc
  · cases hc

/-- A text with doubled quotes is read character by character. -/
theorem feed_doubled (quote : Char) (cs acc : List Char) (before : List Token) :
    (cs.flatMap fun c => if c = quote then [c, c] else [c]).foldl Lexer.feed ⟨before, .inside quote acc⟩ =
      ⟨before, .inside quote (cs.reverse ++ acc)⟩ := by
  induction cs generalizing acc with
  | nil => rfl
  | cons c cs ih =>
    rw [List.flatMap_cons, List.foldl_append]
    have hstep : (if c = quote then [c, c] else [c]).foldl Lexer.feed ⟨before, .inside quote acc⟩ =
        ⟨before, .inside quote (c :: acc)⟩ := by
      by_cases hc : c = quote
      · simp [hc, Lexer.feed]
      · simp [hc, Lexer.feed]
    rw [hstep, ih, List.reverse_cons, List.append_assoc]
    rfl

/-- What stands between quotes is one token. -/
theorem lexes_quoted {quote : Char} (hquote : isQuote quote = true) (s : String) :
    Lexes (quoted quote s).toList [if quote = '\x22' then .name s else .text s] := by
  intro before d hd
  have hstart : Lexer.feed ⟨before, .gap⟩ quote = ⟨before, .inside quote []⟩ := by
    simp only [isQuote, Bool.or_eq_true, decide_eq_true_eq] at hquote
    rcases hquote with rfl | rfl
    · rfl
    · rfl
  rw [quoted, String.toList_ofList, List.cons_append, List.cons_append, List.foldl_cons, hstart,
    List.foldl_append, List.foldl_append, feed_doubled, List.append_nil]
  have hne := not_quote_of_isDelimiter hquote hd
  simp [Lexer.feed, Lexer.leave, Mode.tokens?, hne]

theorem lexes_quotedName (s : String) : Lexes (quotedName s).toList [.name s] := lexes_quoted rfl s

theorem lexes_quotedText (s : String) : Lexes (quotedText s).toList [.text s] := lexes_quoted rfl s

theorem isDelimiter_cases {c : Char} (h : isDelimiter c = true) :
    c = ' ' ∨ c = ',' ∨ c = '(' ∨ c = ')' ∨ c = ';' := by
  simpa [isDelimiter, or_assoc] using h

/-- Letters and digits are neither blanks nor quotes. -/
theorem plain_of_isAlphanum {c : Char} (h : c.isAlphanum = true) :
    isBlank c = false ∧ isQuote c = false := by
  constructor
  · rw [← Bool.not_eq_true]
    intro hblank
    simp only [isBlank, Bool.or_eq_true, decide_eq_true_eq] at hblank
    rcases hblank with (((rfl | rfl) | rfl) | rfl) | rfl
    all_goals cases h
  · rw [← Bool.not_eq_true]
    intro hquote
    simp only [isQuote, Bool.or_eq_true, decide_eq_true_eq] at hquote
    rcases hquote with rfl | rfl
    all_goals cases h

theorem start_of_isDigit {c : Char} (h : c.isDigit = true) (before : List Token) :
    Lexer.start before c = ⟨before, .number [c]⟩ := by
  obtain ⟨hblank, hquote⟩ := plain_of_isAlphanum (c := c) (by simp [Char.isAlphanum, h])
  simp [Lexer.start, hblank, hquote, h]

theorem start_of_isAlpha {c : Char} (h : c.isAlpha = true) (before : List Token) :
    Lexer.start before c = ⟨before, .word [c]⟩ := by
  obtain ⟨hblank, hquote⟩ := plain_of_isAlphanum (c := c) (by simp [Char.isAlphanum, h])
  have hdigit : c.isDigit = false := by
    have hcase : c.isUpper = true ∨ c.isLower = true := Bool.or_eq_true_iff.1 h
    have habove : '9'.val < c.val := by
      rcases hcase with hupper | hlower
      · have hbounds : 'A'.val ≤ c.val ∧ c.val ≤ 'Z'.val := of_decide_eq_true hupper
        exact Nat.lt_of_lt_of_le (by decide) hbounds.1
      · have hbound : 'a'.val ≤ c.val := of_decide_eq_true (Bool.and_eq_true_iff.1 hlower).1
        exact Nat.lt_of_lt_of_le (by decide) hbound
    have hbelow : ¬ c.val ≤ '9'.val := Nat.not_le_of_lt habove
    rw [Char.isDigit, decide_eq_false hbelow, Bool.and_false]
  have hword : startsWord c = true := by simp [startsWord, h]
  simp [Lexer.start, hblank, hquote, hdigit, hword]

/-- Letters are one word. -/
theorem lexes_word {c : Char} (h : ∀ d ∈ c :: cs, d.isAlpha = true) :
    Lexes (c :: cs) [.word (String.ofList (c :: cs))] := by
  obtain ⟨hc, hcs⟩ := List.forall_mem_cons.1 h
  have hrest : ∀ (acc : List Char) (before : List Token), cs.foldl Lexer.feed ⟨before, .word acc⟩ =
      ⟨before, .word (cs.reverse ++ acc)⟩ := by
    clear h
    induction cs with
    | nil => exact fun acc before => rfl
    | cons d cs ih =>
      intro acc before
      obtain ⟨hd, hcs⟩ := List.forall_mem_cons.1 hcs
      have hword : continuesWord d = true := by simp [continuesWord, startsWord, hd]
      rw [List.foldl_cons, Lexer.feed]
      dsimp only
      rw [if_pos hword, ih hcs, List.reverse_cons, List.append_assoc]
      rfl
  intro before d hd
  have hend : continuesWord d = false := by
    rcases isDelimiter_cases hd with rfl | rfl | rfl | rfl | rfl
    all_goals rfl
  rw [List.cons_append, List.foldl_cons, Lexer.feed]
  dsimp only
  rw [start_of_isAlpha hc, List.foldl_append, hrest]
  simp [Lexer.feed, Lexer.leave, Mode.tokens?, hend]

theorem lexes_key {w : String} (hne : w.toList ≠ []) (h : w.toList.all Char.isAlpha = true) :
    Lexes w.toList [.word w] := by
  obtain ⟨c, cs, hw⟩ := List.exists_cons_of_ne_nil hne
  have hlexes := lexes_word (hw ▸ List.all_eq_true.1 h)
  rwa [← hw, String.ofList_toList] at hlexes

/-- A decimal that begins with a digit is one number. -/
theorem lexes_number (h : isMagnitude cs = true) (hd : Decimal.read? cs = some d) :
    Lexes cs [.number d] := by
  obtain ⟨c, r, rfl, hc⟩ := exists_digit_of_isMagnitude h
  have hr : ∀ e ∈ r, e.isDigit = true ∨ e = '.' := fun e he =>
    (mem_of_isMagnitude h).2 e (List.mem_cons_of_mem _ he)
  have hrest : ∀ (acc : List Char) (before : List Token), r.foldl Lexer.feed ⟨before, .number acc⟩ =
      ⟨before, .number (r.reverse ++ acc)⟩ := by
    clear h hd
    induction r with
    | nil => exact fun acc before => rfl
    | cons e r ih =>
      intro acc before
      obtain ⟨he, hr⟩ := List.forall_mem_cons.1 hr
      have hnumber : continuesNumber acc e = true := by
        rcases he with he | rfl
        · simp [continuesNumber, continuesWord, he]
        · simp [continuesNumber]
      rw [List.foldl_cons, Lexer.feed]
      dsimp only
      rw [if_pos hnumber, ih hr, List.reverse_cons, List.append_assoc]
      rfl
  intro before e he
  have hend : ∀ acc, continuesNumber acc e = false := by
    rcases isDelimiter_cases he with rfl | rfl | rfl | rfl | rfl
    all_goals exact fun acc => rfl
  rw [List.cons_append, List.foldl_cons, Lexer.feed]
  dsimp only
  rw [start_of_isDigit hc, List.foldl_append, hrest]
  simp [Lexer.feed, Lexer.leave, Mode.tokens?, hend, hd]

/-- A minus is a token of its own. -/
theorem lexes_minus {ts : List Token} {c : Char} (hc : c ≠ '-') (h : Lexes (c :: cs) ts) :
    Lexes ('-' :: c :: cs) (.mark '-' :: ts) := by
  intro before d hd
  have hrest := h (before ++ [.mark '-']) d hd
  rw [List.append_assoc] at hrest
  rw [List.cons_append, List.cons_append, List.foldl_cons, List.foldl_cons]
  refine Eq.trans ?_ hrest
  rw [List.cons_append, List.foldl_cons]
  congr 1
  show Lexer.feed ⟨before, .dash⟩ c = _
  simp [Lexer.feed, Lexer.leave, Mode.tokens?, hc]

end Atoms

end FeatureTables.Sql
