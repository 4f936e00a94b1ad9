import FeatureTables.Proofs.Sql.Lexing

/-!
The statement of a row and what it says. A script is cut into statements, and a statement that inserts a row
is read as the name of the table, those of the columns, and the literals (`insertion?`). The text that is
written for a row is one statement, which says the row back (`insert_reads`): each literal denotes its value.
-/

namespace FeatureTables.Sql

open Number

/-! ### Literals -/

/-- A number with its sign. -/
structure Numeral where
  negative : Bool
  decimal : Decimal
deriving DecidableEq

namespace Numeral

def value (n : Numeral) : ℚ := if n.negative then -n.decimal.value else n.decimal.value

/-- The binary number nearest to it. -/
def nearest (n : Numeral) : Binary64 := n.decimal.nearest n.negative

def tokens (n : Numeral) : List Token :=
  if n.negative then [.mark '-', .number n.decimal] else [.number n.decimal]

end Numeral

inductive Literal where
  | number (n : Numeral)
  | text (s : String)
  | geometry (wkt : String) (srid : Numeral)
deriving DecidableEq

def Literal.tokens : Literal → List Token
  | number n => n.tokens
  | text s => [.text s]
  | geometry wkt srid =>
    .word "GeomFromText" :: .mark '(' :: .text wkt :: .mark ',' :: (srid.tokens ++ [.mark ')'])

/-- What a literal says: a number that is not finite is written as its text. -/
def Denotes : Literal → Value → Prop
  | .number n, .int k => n.value = k
  | .number n, .real x => x.isFinite = true ∧ n.nearest = x
  | .number n, .bool b => n.value = if b then 1 else 0
  | .text s, .real x => x.isFinite = false ∧ s = x.plain
  | .text s, .text t => s = t
  | .geometry wkt srid, .geometry wkt' srid' => wkt = wkt' ∧ srid.value = srid'
  | _, _ => False

/-! ### Reading statements -/

/-- A statement that inserts a row. -/
structure Insertion where
  table : String
  columns : List String
  values : List Literal
deriving DecidableEq

def name? : List Token → Option (String × List Token)
  | .name s :: ts => some (s, ts)
  | _ => none

def numeral? : List Token → Option (Numeral × List Token)
  | .number d :: ts => some (⟨false, d⟩, ts)
  | .mark '-' :: .number d :: ts => some (⟨true, d⟩, ts)
  | _ => none

def literal? : List Token → Option (Literal × List Token)
  | .text s :: ts => some (.text s, ts)
  | .word f :: .mark '(' :: .text wkt :: .mark ',' :: ts =>
    if f = "GeomFromText" then
      match numeral? ts with
      | some (srid, .mark ')' :: ts) => some (.geometry wkt srid, ts)
      | _ => none
    else none
  | ts => (numeral? ts).map fun (n, ts) => (.number n, ts)

/-- Items up to a closing bracket, with commas between them. -/
def items? {α : Type} (item? : List Token → Option (α × List Token)) :
    Nat → List Token → Option (List α × List Token)
  | 0, _ => none
  | n + 1, ts =>
    match item? ts with
    | some (a, .mark ')' :: ts) => some ([a], ts)
    | some (a, .mark ',' :: ts) => (items? item? n ts).map fun (as, ts) => (a :: as, ts)
    | _ => none

/-- Items in brackets. -/
def list? {α : Type} (item? : List Token → Option (α × List Token)) :
    List Token → Option (List α × List Token)
  | .mark '(' :: ts => items? item? ts.length ts
  | _ => none

/-- Reads a statement that inserts one row, up to its end. -/
def insertion? : List Token → Option Insertion
  | .word w :: .word w' :: .name table :: ts => do
    let (columns, ts) ← list? name? ts
    match ts with
    | .word w'' :: ts =>
      let (values, ts) ← list? literal? ts
      if [w, w', w''] = ["INSERT", "INTO", "VALUES"] ∧ columns.length = values.length ∧ ts = [] then
        some ⟨table, columns, values⟩
      else none
    | _ => none
  | _ => none

/-- The statements of a script, by the semicolons between them. -/
def statements (ts : List Token) : List (List Token) :=
  (ts.splitOn (.mark ';')).filter fun ts => !ts.isEmpty

/-- Reads a script that inserts rows. -/
def read? (s : String) : Option (List Insertion) := do
  let ts ← tokens? s
  (statements ts).mapM insertion?

/-! ### What is written is read -/

/-- The tokens of items in brackets. -/
def bracketed (items : List (List Token)) : List Token :=
  .mark '(' :: ([.mark ','].intercalate items ++ [.mark ')'])

def Insertion.tokens (i : Insertion) : List Token :=
  .word "INSERT" :: .word "INTO" :: .name i.table :: (bracketed (i.columns.map fun s => [.name s]) ++
    .word "VALUES" :: bracketed (i.values.map Literal.tokens))

section Reading

variable {ts : List Token}

theorem numeral?_tokens (n : Numeral) (ts : List Token) : numeral? (n.tokens ++ ts) = some (n, ts) := by
  obtain ⟨negative, d⟩ := n
  cases negative with
  | false => rfl
  | true => rfl

theorem literal?_tokens (l : Literal) (ts : List Token) : literal? (l.tokens ++ ts) = some (l, ts) := by
  cases l with
  | number n =>
    obtain ⟨negative, d⟩ := n
    cases negative with
    | false => rfl
    | true => rfl
  | text s => rfl
  | geometry wkt srid =>
    simp only [Literal.tokens, List.cons_append, List.append_assoc, List.nil_append, literal?,
      if_pos, numeral?_tokens]

theorem items?_tokens {α : Type} {item? : List Token → Option (α × List Token)} {tokensOf : α → List Token}
    (hitem : ∀ a ts, item? (tokensOf a ++ ts) = some (a, ts)) {as : List α} (hne : as ≠ []) (ts : List Token)
    {n : Nat} (hn : as.length ≤ n) :
    items? item? n ([.mark ','].intercalate (as.map tokensOf) ++ .mark ')' :: ts) = some (as, ts) := by
  induction as generalizing n with
  | nil => contradiction
  | cons a as ih =>
    obtain ⟨n, rfl⟩ : ∃ m, n = m + 1 := ⟨n - 1, by rw [List.length_cons] at hn; omega⟩
    rw [List.length_cons, Nat.add_le_add_iff_right] at hn
    cases as with
    | nil => simp [items?, hitem]
    | cons b as =>
      rw [List.map_cons, List.map_cons, List.intercalate_cons_of_ne_nil (List.cons_ne_nil _ _),
        List.append_assoc, List.append_assoc, items?, hitem]
      have hrest := ih (List.cons_ne_nil _ _) hn
      rw [List.map_cons] at hrest
      simp [hrest]

/-- There is a comma or a bracket behind each item. -/
theorem length_le_intercalate {α : Type} (tokensOf : α → List Token) (as : List α) :
    as.length ≤ ([.mark ','].intercalate (as.map tokensOf)).length + 1 := by
  induction as with
  | nil => exact Nat.zero_le _
  | cons a as ih =>
    cases as with
    | nil => exact Nat.succ_le_succ (Nat.zero_le _)
    | cons b as =>
      rw [List.map_cons, List.map_cons, List.intercalate_cons_of_ne_nil (List.cons_ne_nil _ _)]
      rw [List.map_cons] at ih
      simp only [List.length_cons, List.length_append] at ih ⊢
      omega

theorem list?_tokens {α : Type} {item? : List Token → Option (α × List Token)} {tokensOf : α → List Token}
    (hitem : ∀ a ts, item? (tokensOf a ++ ts) = some (a, ts)) {as : List α} (hne : as ≠ [])
    (ts : List Token) : list? item? (bracketed (as.map tokensOf) ++ ts) = some (as, ts) := by
  have hlength : as.length ≤ ([.mark ','].intercalate (as.map tokensOf) ++ .mark ')' :: ts).length := by
    have := length_le_intercalate tokensOf as
    rw [List.length_append, List.length_cons]
    omega
  rw [bracketed, List.cons_append, List.append_assoc, list?]
  exact items?_tokens hitem hne ts hlength

theorem insertion?_tokens {i : Insertion} (hcolumns : i.columns ≠ [])
    (hlength : i.columns.length = i.values.length) : insertion? i.tokens = some i := by
  have hvalues : i.values ≠ [] := by
    rw [← List.length_pos_iff] at hcolumns ⊢
    omega
  have hread := list?_tokens literal?_tokens hvalues []
  rw [List.append_nil] at hread
  rw [Insertion.tokens, insertion?, list?_tokens (fun s ts => rfl) hcolumns]
  simp [hread, hlength]

theorem mem_intercalate {α : Type} {sep : List α} {items : List (List α)} {x : α}
    (h : x ∈ sep.intercalate items) : x ∈ sep ∨ ∃ item ∈ items, x ∈ item := by
  induction items with
  | nil => cases h
  | cons item items ih =>
    cases items with
    | nil => exact Or.inr ⟨item, List.mem_cons_self, by simpa using h⟩
    | cons item' items =>
      rw [List.intercalate_cons_of_ne_nil (List.cons_ne_nil _ _)] at h
      rcases List.mem_append.1 h with h | h
      · exact (List.mem_append.1 h).elim (fun h => Or.inr ⟨item, List.mem_cons_self, h⟩) Or.inl
      · exact (ih h).imp_right fun ⟨i, hi, h⟩ => ⟨i, List.mem_cons_of_mem _ hi, h⟩

theorem not_mem_bracketed {items : List (List Token)} (h : ∀ item ∈ items, .mark ';' ∉ item) :
    .mark ';' ∉ bracketed items := by
  intro hmem
  rcases List.mem_cons.1 hmem with hmem | hmem
  · cases hmem
  · rcases List.mem_append.1 hmem with hmem | hmem
    · rcases mem_intercalate hmem with hmem | ⟨item, hitem, hmem⟩
      · cases List.mem_singleton.1 hmem
      · exact h item hitem hmem
    · cases List.mem_singleton.1 hmem

/-- No token of a statement ends it. -/
theorem not_mem_tokens (i : Insertion) : .mark ';' ∉ i.tokens := by
  have hnumeral : ∀ n : Numeral, .mark ';' ∉ n.tokens := by
    rintro ⟨negative, d⟩
    cases negative with
    | false => simp [Numeral.tokens]
    | true => simp [Numeral.tokens]
  have hcolumns : .mark ';' ∉ bracketed (i.columns.map fun s => [.name s]) := by
    refine not_mem_bracketed fun item hitem => ?_
    obtain ⟨s, -, rfl⟩ := List.mem_map.1 hitem
    simp
  have hvalues : .mark ';' ∉ bracketed (i.values.map Literal.tokens) := by
    refine not_mem_bracketed fun item hitem => ?_
    obtain ⟨l, -, rfl⟩ := List.mem_map.1 hitem
    cases l with
    | number n => exact hnumeral n
    | text s => simp [Literal.tokens]
    | geometry wkt srid => simp [Literal.tokens, hnumeral srid]
  simp [Insertion.tokens, hcolumns, hvalues]

/-- A statement up to its semicolon is the only one of its text. -/
theorem statements_tokens (i : Insertion) : statements (i.tokens ++ [.mark ';']) = [i.tokens] := by
  rw [statements, List.splitOn_append_cons_self_of_not_mem (not_mem_tokens i)]
  rfl

end Reading

/-! ### What is written has these tokens -/

section Writing

theorem lexes_toDigits (n : Nat) : Lexes (Nat.toDigits 10 n) [.number ⟨n, 0⟩] := by
  have hdigits : ∀ c ∈ Nat.toDigits 10 n, c.isDigit = true := fun c hc =>
    Nat.isDigit_of_mem_toDigits (by decide) (by decide) hc
  have hread := Decimal.read?_digits Nat.toDigits_ne_nil hdigits
  rw [Nat.ofDigitChars_toDigits (by decide) (by decide)] at hread
  exact lexes_number (isMagnitude_digits Nat.toDigits_ne_nil hdigits) hread

/-- The text of a whole number: its digits, with a minus in front of them if at all. -/
theorem toList_int (k : Int) :
    (toString k).toList = (if k < 0 then ['-'] else []) ++ Nat.toDigits 10 k.natAbs := by
  cases k with
  | ofNat m =>
    show (toString m).toList = _
    rw [Nat.toString_eq_ofList_toDigits, String.toList_ofList,
      if_neg (show ¬ Int.ofNat m < 0 from Int.not_lt.2 (Int.natCast_nonneg m))]
    rfl
  | negSucc m =>
    show ("-" ++ toString (m + 1)).toList = _
    rw [Nat.toString_eq_ofList_toDigits, String.toList_append, String.toList_ofList,
      if_pos (Int.negSucc_lt_zero m)]
    simp

/-- A whole number is written as a numeral. -/
theorem lexes_int (k : Int) : ∃ n : Numeral, n.value = k ∧ Lexes (toString k).toList n.tokens := by
  rw [toList_int]
  split
  · next hk =>
    refine ⟨⟨true, k.natAbs, 0⟩, ?_, ?_⟩
    · simp [Numeral.value, Decimal.value, Nat.cast_natAbs, abs_of_neg hk]
    · cases hdigits : Nat.toDigits 10 k.natAbs with
      | nil => exact absurd hdigits Nat.toDigits_ne_nil
      | cons c cs =>
        refine lexes_minus ?_ (hdigits ▸ lexes_toDigits k.natAbs)
        rintro rfl
        have := Nat.isDigit_of_mem_toDigits (by decide) (by decide)
          (hdigits ▸ List.mem_cons_self : '-' ∈ Nat.toDigits 10 k.natAbs)
        cases this
  · next hk =>
    refine ⟨⟨false, k.natAbs, 0⟩, ?_, lexes_toDigits k.natAbs⟩
    simp [Numeral.value, Decimal.value, Nat.cast_natAbs, abs_of_nonneg (not_lt.1 hk)]

/-- A finite number is written as the numeral next to it. -/
theorem lexes_real {x : Binary64} (hx : x.isFinite = true) :
    ∃ n : Numeral, n.nearest = x ∧ Lexes x.plain.toList n.tokens := by
  cases x with
  | nan => cases hx
  | infinite s => cases hx
  | finite s m e h =>
    obtain ⟨cs, d, hplain, hcs, hd, hnearest⟩ := Binary64.plain_reads (s := s) h
    refine ⟨⟨s, d⟩, hnearest, ?_⟩
    have hlexes := lexes_number hcs hd
    rw [hplain, String.toList_append, String.toList_ofList]
    cases s with
    | false => exact hlexes
    | true =>
      obtain ⟨c, r, rfl, hc⟩ := exists_digit_of_isMagnitude hcs
      refine lexes_minus ?_ hlexes
      rintro rfl
      cases hc

theorem literal_real (x : Binary64) :
    literal (.real x) = if x.isFinite then x.plain else quotedText x.plain := rfl

theorem literal_geometry (wkt : String) (srid : Int) : literal (.geometry wkt srid) =
    "GeomFromText(" ++ quotedText wkt ++ ", " ++ toString srid ++ ")" := rfl

theorem lexes_literal (v : Value) : ∃ l, Denotes l v ∧ Lexes (literal v).toList l.tokens := by
  cases v with
  | int k =>
    obtain ⟨n, hn, hlexes⟩ := lexes_int k
    exact ⟨.number n, hn, hlexes⟩
  | real x =>
    cases hx : x.isFinite with
    | true =>
      obtain ⟨n, hn, hlexes⟩ := lexes_real hx
      refine ⟨.number n, ⟨hx, hn⟩, ?_⟩
      rwa [literal_real, if_pos hx]
    | false =>
      refine ⟨.text x.plain, ⟨hx, rfl⟩, ?_⟩
      rw [literal_real, hx, if_neg Bool.false_ne_true]
      exact lexes_quotedText x.plain
  | bool b =>
    cases b with
    | false => exact ⟨.number ⟨false, 0, 0⟩, by simp [Denotes, Numeral.value, Decimal.value],
        lexes_toDigits 0⟩
    | true => exact ⟨.number ⟨false, 1, 0⟩, by simp [Denotes, Numeral.value, Decimal.value],
        lexes_toDigits 1⟩
  | text s => exact ⟨.text s, rfl, lexes_quotedText s⟩
  | geometry wkt srid =>
    obtain ⟨n, hn, hlexes⟩ := lexes_int srid
    refine ⟨.geometry wkt n, ⟨rfl, hn⟩, Runs.lexes ?_⟩
    have hword : Lexes "GeomFromText".toList [.word "GeomFromText"] := lexes_key (by decide) (by decide)
    have hruns := (hword.mark (c := '(') rfl (by decide)).append
      (((lexes_quotedText wkt).mark (c := ',') rfl (by decide)).append
        (runs_nil.lexes.blank.append (hlexes.mark (c := ')') rfl (by decide))))
    have hword' : "GeomFromText(".toList = "GeomFromText".toList ++ ['('] := by decide
    have hcomma' : ", ".toList = [','] ++ [' '] := by decide
    have hend' : ")".toList = [')'] := by decide
    rw [literal_geometry]
    simp only [String.toList_append, hword', hcomma', hend', List.append_assoc, List.nil_append]
      at hruns ⊢
    exact hruns

/-- The statement of a row is read as it is written. -/
theorem runs_insert (table : String) {r : Row} (hne : r.cells ≠ []) : ∃ i : Insertion,
    i.table = table ∧ i.columns = r.cells.map (·.1) ∧
      List.Forall₂ Denotes i.values (r.cells.map (·.2)) ∧
      Runs (insert table r).toList (i.tokens ++ [.mark ';']) := by
  choose lit hdenotes hlexes using lexes_literal
  refine ⟨⟨table, r.cells.map (·.1), r.cells.map fun cell => lit cell.2⟩, rfl, rfl, ?_, ?_⟩
  · rw [List.forall₂_map_left_iff, List.forall₂_map_right_iff, List.forall₂_same]
    exact fun cell _ => hdenotes cell.2
  · have hcolumns := runs_list (fun cell : String × Value => quotedName cell.1)
      (fun cell => [.name cell.1]) hne fun cell _ => lexes_quotedName cell.1
    have hvalues := runs_list (fun cell : String × Value => literal cell.2)
      (fun cell => (lit cell.2).tokens) hne fun cell _ => hlexes cell.2
    have hinsert := (lexes_key (w := "INSERT") (by decide) (by decide)).blank
    have hinto := (lexes_key (w := "INTO") (by decide) (by decide)).blank
    have htable := (lexes_quotedName table).blank
    have hkey := (lexes_key (w := "VALUES") (by decide) (by decide)).blank
    have hblank := runs_nil.lexes.blank
    have hopen := runs_nil.lexes.mark (c := '(') rfl (by decide)
    have hend := runs_nil.lexes.mark (c := ';') rfl (by decide)
    have hruns := hinsert.append (hinto.append (htable.append (hopen.append (hcolumns.append
      (hblank.append (hkey.append (hopen.append (hvalues.append hend))))))))
    have hinsert' : "INSERT INTO ".toList = "INSERT".toList ++ [' '] ++ ("INTO".toList ++ [' ']) := by decide
    have hopen' : " (".toList = [' '] ++ ['('] := by decide
    have hkey' : ") VALUES (".toList = [')'] ++ ([' '] ++ ("VALUES".toList ++ ([' '] ++ ['(']))) := by decide
    have hend' : ");".toList = [')'] ++ [';'] := by decide
    unfold Sql.insert
    simp only [String.toList_append, hinsert', hopen', hkey', hend', List.append_assoc, List.nil_append]
      at hruns ⊢
    simpa only [Insertion.tokens, bracketed, List.map_map, Function.comp_def, List.cons_append,
      List.append_assoc, List.nil_append] using hruns

end Writing

/-! ### Where a reader may stop -/

/-- The texts of a value. -/
def strings : Value → List String
  | .text s => [s]
  | .geometry wkt _ => [wkt]
  | .int _ | .real _ | .bool _ => []

section Nul

theorem nul_of_mem_quoted {quote : Char} {s : String} (hquote : isQuote quote = true)
    (h : '\x00' ∈ (quoted quote s).toList) : '\x00' ∈ s.toList := by
  have hne : '\x00' ≠ quote := by
    rintro rfl
    cases hquote
  rw [quoted, String.toList_ofList] at h
  have h : ∃ c ∈ s.toList, '\x00' ∈ if c = quote then [c, c] else [c] := by
    simpa [hne] using h
  obtain ⟨c, hc, h⟩ := h
  obtain rfl : '\x00' = c := by
    split at h
    · simpa using h
    · exact List.mem_singleton.1 h
  exact hc

theorem not_nul_int (k : Int) : '\x00' ∉ (toString k).toList := by
  intro h
  rw [toList_int] at h
  rcases List.mem_append.1 h with h | h
  · split at h
    · cases List.mem_singleton.1 h
    · cases h
  · have := Nat.isDigit_of_mem_toDigits (by decide) (by decide) h
    cases this

theorem nul_of_mem_literal {v : Value} (h : '\x00' ∈ (literal v).toList) :
    ∃ s ∈ strings v, '\x00' ∈ s.toList := by
  cases v with
  | int k => exact absurd h (not_nul_int k)
  | real x =>
    have hplain : '\x00' ∉ x.plain.toList := fun hmem => by
      rcases x.mem_plain.2 _ hmem with h | h | h
      all_goals cases h
    rw [literal_real] at h
    split at h
    · exact absurd h hplain
    · exact absurd (nul_of_mem_quoted rfl h) hplain
  | bool b =>
    cases b with
    | false => exact absurd h (by decide)
    | true => exact absurd h (by decide)
  | text s => exact ⟨s, List.mem_singleton_self s, nul_of_mem_quoted rfl h⟩
  | geometry wkt srid =>
    refine ⟨wkt, List.mem_singleton_self wkt, ?_⟩
    rw [literal_geometry] at h
    simp only [String.toList_append, List.mem_append] at h
    rcases h with (((h | h) | h) | h) | h
    · exact absurd h (by decide)
    · exact nul_of_mem_quoted rfl h
    · exact absurd h (by decide)
    · exact absurd h (not_nul_int srid)
    · exact absurd h (by decide)

/-- There is a NUL in the statement of a row only if one of its names or texts has one. -/
theorem nul_of_mem_insert {table : String} {r : Row} (h : '\x00' ∈ (insert table r).toList) :
    ∃ s ∈ table :: r.cells.flatMap fun (column, v) => column :: strings v, '\x00' ∈ s.toList := by
  have hlist : ∀ ss : List String, '\x00' ∈ (String.intercalate ", " ss).toList →
      ∃ s ∈ ss, '\x00' ∈ s.toList := by
    intro ss h
    rw [String.toList_intercalate] at h
    rcases mem_intercalate h with h | ⟨cs, hcs, h⟩
    · exact absurd h (by decide)
    · obtain ⟨s, hs, rfl⟩ := List.mem_map.1 hcs
      exact ⟨s, hs, h⟩
  unfold Sql.insert at h
  simp only [String.toList_append, List.mem_append] at h
  rcases h with (((((h | h) | h) | h) | h) | h) | h
  · exact absurd h (by decide)
  · exact ⟨table, List.mem_cons_self, nul_of_mem_quoted rfl h⟩
  · exact absurd h (by decide)
  · obtain ⟨_, hs, h⟩ := hlist _ h
    obtain ⟨cell, hcell, rfl⟩ := List.mem_map.1 hs
    exact ⟨cell.1, List.mem_cons_of_mem _ (List.mem_flatMap.2 ⟨cell, hcell, List.mem_cons_self⟩),
      nul_of_mem_quoted rfl h⟩
  · exact absurd h (by decide)
  · obtain ⟨_, hs, h⟩ := hlist _ h
    obtain ⟨cell, hcell, rfl⟩ := List.mem_map.1 hs
    obtain ⟨s, hs, h⟩ := nul_of_mem_literal h
    exact ⟨s, List.mem_cons_of_mem _ (List.mem_flatMap.2 ⟨cell, hcell, List.mem_cons_of_mem _ hs⟩), h⟩
  · exact absurd h (by decide)

end Nul

/-- The text that is written for a row is one statement: it names the table and the columns, and its literals
denote the values, in their order. So no name and no value ends its token or adds another one. A reader that
stops at a NUL sees all of the statement if there is none in the names and texts. -/
theorem insert_reads (table : String) {r : Row} (hne : r.cells ≠ []) : (∃ i : Insertion,
    read? (insert table r) = some [i] ∧ i.table = table ∧ i.columns = r.cells.map (·.1) ∧
      List.Forall₂ Denotes i.values (r.cells.map (·.2))) ∧
    ((∀ s ∈ table :: r.cells.flatMap fun (column, v) => column :: strings v, '\x00' ∉ s.toList) →
      '\x00' ∉ (insert table r).toList) := by
  refine ⟨?_, fun hnul hmem => ?_⟩
  · obtain ⟨i, htable, hcolumns, hvalues, hruns⟩ := runs_insert table hne
    refine ⟨i, ?_, htable, hcolumns, hvalues⟩
    have hne' : i.columns ≠ [] := by
      rw [hcolumns]
      simpa using hne
    have hlength : i.columns.length = i.values.length := by
      rw [hvalues.length_eq, hcolumns, List.length_map, List.length_map]
    rw [read?, hruns.tokens?]
    simp [statements_tokens, insertion?_tokens hne' hlength]
  · obtain ⟨s, hs, h⟩ := nul_of_mem_insert hmem
    exact hnul s hs h

/-- A row with quotes, a comment and the end of a statement in its names and texts. -/
def hostileRow : Row := ⟨[("a\") --", .text "x'); DROP TABLE \"t\"; --\n/*"), ("n", .int (-5)),
  ("r", .real (Binary64.ofDecimal true 15 (-1))), ("b", .bool true), ("g", .geometry "POINT(1 2)" 4326)]⟩

/-- The row is read as it is. -/
theorem hostileRow_reads : hostileRow.cells ≠ [] ∧ ∃ i : Insertion,
    read? (insert "t;" hostileRow) = some [i] ∧ i.table = "t;" ∧
      i.columns = ["a\") --", "n", "r", "b", "g"] ∧
      i.values = [.text "x'); DROP TABLE \"t\"; --\n/*", .number ⟨true, 5, 0⟩, .number ⟨true, 15, -1⟩,
        .number ⟨false, 1, 0⟩, .geometry "POINT(1 2)" ⟨false, 4326, 0⟩] ∧
      List.Forall₂ Denotes i.values (hostileRow.cells.map (·.2)) := by
  have hne : hostileRow.cells ≠ [] := by decide
  obtain ⟨⟨i, hread, htable, hcolumns, hvalues⟩, -⟩ := insert_reads "t;" hne
  have heval : (read? (insert "t;" hostileRow)).map (fun is => is.map (·.values)) =
      some [[.text "x'); DROP TABLE \"t\"; --\n/*", .number ⟨true, 5, 0⟩, .number ⟨true, 15, -1⟩,
        .number ⟨false, 1, 0⟩, .geometry "POINT(1 2)" ⟨false, 4326, 0⟩]] := by
    decide +kernel
  rw [hread, Option.map_some] at heval
  exact ⟨hne, i, hread, htable, hcolumns, List.singleton_inj.1 (Option.some.inj heval), hvalues⟩

/-- A row without cells has no statement. -/
example : read? (insert "t" ⟨[]⟩) = none := by decide +kernel

end FeatureTables.Sql
