import FeatureTables.Geometry.Shape
import FeatureTables.Proofs.Number.Plain

/-!
Reading well-known text. A text is a tree of lists in parentheses, each with the words in front of it;
between the parentheses and the commas stand the tuples. Which trees are those of geometries is said by
`isGeometry`, with the conditions on tuples as a parameter. A tree is read back from its tokens
(`readBack`), whatever the words in it are, unless one of its lists is empty.
-/

namespace FeatureTables

open Number

namespace Wkt

/-! ### Tokens -/

inductive Token where
  | word (s : String)
  | opening
  | closing
  | comma
deriving DecidableEq

/-- What a character stands for that is no part of a word. -/
def mark? : Char → Option (List Token)
  | '(' => some [.opening]
  | ')' => some [.closing]
  | ',' => some [.comma]
  | ' ' => some []
  | _ => none

/-- The word of a run of characters, last one first. -/
def wordOf (run : List Char) : List Token :=
  if run.isEmpty then [] else [.word (String.ofList run.reverse)]

/-- The tokens of a text of which the word that is open has begun with `run`. -/
def tokensFrom (run : List Char) : List Char → List Token
  | [] => wordOf run
  | c :: s =>
    match mark? c with
    | some ts => wordOf run ++ ts ++ tokensFrom [] s
    | none => tokensFrom (c :: run) s

def tokens (s : String) : List Token := tokensFrom [] s.toList

/-! ### Trees -/

/-- A tuple, or a list of parts with the words in front of it. -/
inductive Node where
  | tuple (words : List String)
  | list (head : List String) (parts : List Node)

/-- The words at the start, and what follows them. -/
def leadingWords : List Token → List String × List Token
  | .word s :: ts => (s :: (leadingWords ts).1, (leadingWords ts).2)
  | ts => ([], ts)

mutual
/-- The tree at the start of the tokens, with at most `n` steps down. -/
def readNode? : Nat → List Token → Option (Node × List Token)
  | 0, _ => none
  | n + 1, ts =>
    match leadingWords ts with
    | (head, .opening :: r) => (readParts? n r).map fun (parts, r) => (.list head parts, r)
    | (words, r) => some (.tuple words, r)
/-- The parts of a list, up to its end. -/
def readParts? : Nat → List Token → Option (List Node × List Token)
  | 0, _ => none
  | n + 1, ts =>
    match readNode? n ts with
    | some (t, .comma :: r) => (readParts? n r).map fun (parts, r) => (t :: parts, r)
    | some (t, .closing :: r) => some ([t], r)
    | _ => none
end

/-- The tree of a text. -/
def read? (s : String) : Option Node :=
  match readNode? (2 * (tokens s).length + 1) (tokens s) with
  | some (t, []) => some t
  | _ => none

namespace Node

/-- The word that a text starts with. -/
def name : Node → String
  | list (name :: _) _ => name
  | _ => ""

mutual
/-- The tuples of a text, from left to right. -/
def tuples : Node → List (List String)
  | tuple words => [words]
  | list _ parts => tuplesAmong parts
def tuplesAmong : List Node → List (List String)
  | [] => []
  | t :: ts => tuples t ++ tuplesAmong ts
end

/-! ### Geometries -/

def isTuple (ok : List String → Bool) : Node → Bool
  | tuple words => ok words
  | list .. => false

/-- At least `least` tuples, as those of a line or of a ring. -/
def isSequence (least : Nat) (ok : List String → Bool) : Node → Bool
  | list [] parts => least ≤ parts.length && parts.all (isTuple ok)
  | _ => false

/-- A tuple in parentheses. -/
def isPosition (ok : List String → Bool) : Node → Bool
  | list [] [t] => isTuple ok t
  | _ => false

/-- At least one part, each one as asked. -/
def isSeries (isPart : Node → Bool) : Node → Bool
  | list [] parts => !parts.isEmpty && parts.all isPart
  | _ => false

/-- What stands behind the name of a geometry. -/
def isBody (ok : List String → Bool) (name : String) (body : Node) : Bool :=
  match name with
  | "POINT" => isPosition ok body
  | "LINESTRING" => isSequence 2 ok body
  | "POLYGON" => isSeries (isSequence 4 ok) body
  | "MULTIPOINT" => isSeries (isPosition ok) body
  | "MULTILINESTRING" => isSeries (isSequence 2 ok) body
  | "MULTIPOLYGON" => isSeries (isSeries (isSequence 4 ok)) body
  | _ => false

mutual
/-- The tree of a geometry: lines have at least two tuples and rings at least four, and each tuple is
as asked for the dimension of its geometry, three with the tag `Z` and two without it. -/
def isGeometry (ok : Nat → List String → Bool) : Node → Bool
  | list [name] parts =>
    if name = "GEOMETRYCOLLECTION" then !parts.isEmpty && areGeometries ok parts
    else isBody (ok 2) name (list [] parts)
  | list [name, "Z"] parts => isBody (ok 3) name (list [] parts)
  | _ => false
def areGeometries (ok : Nat → List String → Bool) : List Node → Bool
  | [] => true
  | t :: ts => isGeometry ok t && areGeometries ok ts
end

/-- The tree of a geometry, with as many numbers in each tuple as its dimension asks for. -/
def isWellFormed : Node → Bool :=
  isGeometry fun dimension words => words.length == dimension && words.all isNumeral

/-! ### Trees as tokens -/

mutual
def tokens : Node → List Token
  | tuple words => words.map .word
  | list head parts =>
    head.map .word ++ .opening :: ([.comma].intercalate (tokensEach parts) ++ [.closing])
def tokensEach : List Node → List (List Token)
  | [] => []
  | t :: ts => tokens t :: tokensEach ts
end

mutual
/-- No list in the tree is empty. -/
def Full : Node → Prop
  | tuple _ => True
  | list _ parts => parts ≠ [] ∧ AllFull parts
def AllFull : List Node → Prop
  | [] => True
  | t :: ts => Full t ∧ AllFull ts
end

section Parts

variable {head : List String} {parts : List Node} {ok : Nat → List String → Bool}

theorem tokensEach_eq (ts : List Node) : tokensEach ts = ts.map tokens := by
  induction ts with
  | nil => rfl
  | cons t ts ih => rw [tokensEach, ih, List.map_cons]

theorem tokens_list : (list head parts).tokens =
    head.map .word ++ .opening :: ([.comma].intercalate (parts.map tokens) ++ [.closing]) := by
  rw [tokens, tokensEach_eq]

theorem allFull_iff {ts : List Node} : AllFull ts ↔ ∀ t ∈ ts, Full t := by
  induction ts with
  | nil => simp [AllFull]
  | cons t ts ih => rw [AllFull, ih, List.forall_mem_cons]

theorem full_list : (list head parts).Full ↔ parts ≠ [] ∧ ∀ t ∈ parts, t.Full := by
  rw [Full, allFull_iff]

theorem tuples_list : (list head parts).tuples = parts.flatMap tuples := by
  rw [tuples]
  induction parts with
  | nil => rfl
  | cons t ts ih => rw [tuplesAmong, ih, List.flatMap_cons]

theorem areGeometries_iff {ts : List Node} :
    areGeometries ok ts = true ↔ ∀ t ∈ ts, isGeometry ok t = true := by
  induction ts with
  | nil => simp [areGeometries]
  | cons t ts ih => rw [areGeometries, Bool.and_eq_true, ih, List.forall_mem_cons]

end Parts

mutual
theorem induct {P : Node → Prop} (htuple : ∀ words, P (tuple words))
    (hlist : ∀ head parts, (∀ t ∈ parts, P t) → P (list head parts)) : ∀ t, P t
  | tuple words => htuple words
  | list head parts => hlist head parts (induct_parts htuple hlist parts)
theorem induct_parts {P : Node → Prop} (htuple : ∀ words, P (tuple words))
    (hlist : ∀ head parts, (∀ t ∈ parts, P t) → P (list head parts)) :
    ∀ ts : List Node, ∀ t ∈ ts, P t
  | [] => by simp
  | t :: ts => List.forall_mem_cons.2 ⟨induct htuple hlist t, induct_parts htuple hlist ts⟩
end

end Node

/-! ### Trees are read back from their tokens -/

section Reading

variable {r : List Token} {n : Nat} {t : Node}

/-- Nothing follows, or what ends a part of a list. -/
def Ends (r : List Token) : Prop := r = [] ∨ ∃ r', r = .comma :: r' ∨ r = .closing :: r'

theorem leadingWords_append (words : List String) (h : ∀ s, r.head? ≠ some (.word s)) :
    leadingWords (words.map .word ++ r) = (words, r) := by
  induction words with
  | nil =>
    cases r with
    | nil => rfl
    | cons t r => cases t <;> simp_all [leadingWords]
  | cons s words ih => simp [leadingWords, ih]

theorem Ends.not_word (h : Ends r) (s : String) : r.head? ≠ some (.word s) := by
  rcases h with rfl | ⟨r', rfl | rfl⟩ <;> simp

/-- The tokens of a tree are read as the tree. -/
def ReadBack (t : Node) : Prop := ∀ n r, 2 * t.tokens.length < n → Ends r →
  readNode? n (t.tokens ++ r) = some (t, r)

theorem readBack_tuple (words : List String) : ReadBack (.tuple words) := by
  intro n r hn hr
  obtain ⟨n, rfl⟩ : ∃ m, n = m + 1 := ⟨n - 1, by omega⟩
  rw [Node.tokens, readNode?, leadingWords_append words hr.not_word]
  rcases hr with rfl | ⟨r', rfl | rfl⟩ <;> rfl

theorem readParts?_tokens {ts : List Node} (hne : ts ≠ []) (h : ∀ t ∈ ts, ReadBack t)
    (hn : 2 * ([.comma].intercalate (ts.map Node.tokens)).length + 1 < n) :
    readParts? n ([.comma].intercalate (ts.map Node.tokens) ++ .closing :: r) = some (ts, r) := by
  induction ts generalizing n with
  | nil => exact absurd rfl hne
  | cons t ts ih =>
    -- a part takes one step more than its own tokens, paid for by the separator behind it
    obtain ⟨n, rfl⟩ : ∃ m, n = m + 1 := ⟨n - 1, by omega⟩
    have ht := h t List.mem_cons_self
    cases ts with
    | nil =>
      rw [List.map_singleton, List.intercalate_singleton] at hn ⊢
      rw [readParts?, ht n _ (by omega) (Or.inr ⟨r, Or.inr rfl⟩)]
    | cons u us =>
      rw [List.map_cons, List.intercalate_cons_of_ne_nil (by simp)] at hn ⊢
      rw [List.length_append, List.length_append, List.length_singleton] at hn
      have hrest := ih (List.cons_ne_nil u us) (fun x hx => h x (List.mem_cons_of_mem _ hx))
        (n := n) (by omega)
      rw [List.append_assoc, List.append_assoc, List.singleton_append, readParts?,
        ht n _ (by omega) (Or.inr ⟨_, Or.inl rfl⟩)]
      simp only [hrest, Option.map_some]

theorem readBack_list {head : List String} {parts : List Node} (hne : parts ≠ [])
    (h : ∀ t ∈ parts, ReadBack t) : ReadBack (.list head parts) := by
  intro n r hn hr
  obtain ⟨n, rfl⟩ : ∃ m, n = m + 1 := ⟨n - 1, by omega⟩
  rw [Node.tokens_list] at hn ⊢
  rw [List.append_assoc, readNode?, leadingWords_append head (by simp)]
  simp only [List.length_append, List.length_map, List.length_cons, List.length_nil] at hn
  have hparts := readParts?_tokens (n := n) (r := r) hne h (by omega)
  simp only [List.cons_append, List.append_assoc, List.nil_append, hparts, Option.map_some]

theorem readBack (h : t.Full) : ReadBack t := by
  induction t using Node.induct with
  | htuple words => exact readBack_tuple words
  | hlist head parts ih =>
    obtain ⟨hne, hparts⟩ := Node.full_list.1 h
    exact readBack_list hne fun t ht => ih t ht (hparts t ht)

end Reading

/-! ### Texts and their tokens -/

section Lexing

variable {a b w r : List Char} {ts us vs : List Token} {c : Char}

/-- Nothing follows, or what ends a word. -/
def Stops (r : List Char) : Prop := ∀ c ∈ r.head?, (mark? c).isSome = true

/-- The text has these tokens, wherever it is followed by what ends a word. -/
def Lexes (a : List Char) (ts : List Token) : Prop :=
  ∀ r, Stops r → tokensFrom [] (a ++ r) = ts ++ tokensFrom [] r

theorem tokensFrom_append (h : ∀ c ∈ w, mark? c = none) (run r : List Char) :
    tokensFrom run (w ++ r) = tokensFrom (w.reverse ++ run) r := by
  induction w generalizing run with
  | nil => rfl
  | cons c w ih =>
    rw [List.cons_append, tokensFrom, h c List.mem_cons_self]
    dsimp only
    rw [ih fun d hd => h d (List.mem_cons_of_mem _ hd), List.reverse_cons, List.append_assoc]
    rfl

theorem tokensFrom_stops (h : Stops r) (run : List Char) :
    tokensFrom run r = wordOf run ++ tokensFrom [] r := by
  cases r with
  | nil => simp [tokensFrom, wordOf]
  | cons c r =>
    obtain ⟨ts, hc⟩ := Option.isSome_iff_exists.1 (h c rfl)
    simp [tokensFrom, hc, wordOf]

theorem lexes_nil : Lexes [] [] := fun _ _ => rfl

/-- There are characters, and all of them are parts of one word. -/
def isWord (w : List Char) : Bool := !w.isEmpty && w.all fun c => (mark? c).isNone

theorem isWord_iff : isWord w = true ↔ w ≠ [] ∧ ∀ c ∈ w, mark? c = none := by
  simp [isWord]

theorem lexes_word (h : isWord w = true) : Lexes w [.word (String.ofList w)] := by
  intro r hr
  obtain ⟨hne, hall⟩ := isWord_iff.1 h
  rw [tokensFrom_append hall, tokensFrom_stops hr, List.append_nil, wordOf]
  simp [hne]

theorem Lexes.mark (ha : Lexes a ts) (hc : mark? c = some us) (hb : Lexes b vs) :
    Lexes (a ++ c :: b) (ts ++ (us ++ vs)) := by
  intro r hr
  have hstop : Stops (c :: (b ++ r)) := by
    intro d hd
    obtain rfl := Option.some.inj hd
    rw [hc]
    rfl
  rw [List.append_assoc, List.cons_append, ha _ hstop, tokensFrom, hc]
  dsimp only
  rw [hb r hr]
  simp [wordOf]

theorem Lexes.tokens {s : String} (h : Lexes s.toList ts) : tokens s = ts := by
  have hnil := h [] (by simp [Stops])
  rwa [List.append_nil, tokensFrom, show wordOf [] = [] from rfl, List.append_nil] at hnil

/-- Texts with a separator between them. -/
theorem lexes_intercalate {α : Type} {text : α → String} {tokensOf : α → List Token} {xs : List α}
    {sep : String} {us : List Token}
    (hsep : ∀ {a b ts vs}, Lexes a ts → Lexes b vs → Lexes (a ++ sep.toList ++ b) (ts ++ us ++ vs))
    (h : ∀ x ∈ xs, Lexes (text x).toList (tokensOf x)) :
    Lexes (String.intercalate sep (xs.map text)).toList (us.intercalate (xs.map tokensOf)) := by
  induction xs with
  | nil => exact lexes_nil
  | cons x xs ih =>
    cases xs with
    | nil => simpa using h x List.mem_cons_self
    | cons y ys =>
      rw [List.map_cons, List.map_cons, String.intercalate_cons_cons, String.toList_append,
        String.toList_append, List.map_cons, List.map_cons,
        List.intercalate_cons_of_ne_nil (List.cons_ne_nil _ _)]
      exact hsep (h x List.mem_cons_self) (ih fun z hz => h z (List.mem_cons_of_mem _ hz))

theorem lexes_listText {α : Type} {text : α → String} {tokensOf : α → List Token} {xs : List α}
    (h : ∀ x ∈ xs, Lexes (text x).toList (tokensOf x)) :
    Lexes (Shape.listText (xs.map text)).toList
      (.opening :: ([.comma].intercalate (xs.map tokensOf) ++ [.closing])) := by
  have hparts : Lexes (String.intercalate ", " (xs.map text)).toList
      ([.comma].intercalate (xs.map tokensOf)) := by
    refine lexes_intercalate (fun {a b ts vs} ha hb => ?_) h
    have hblank : Lexes (' ' :: b) vs := lexes_nil.mark (c := ' ') rfl hb
    simpa using ha.mark (c := ',') rfl hblank
  have hclosed := hparts.mark (c := ')') rfl lexes_nil
  simpa [Shape.listText] using lexes_nil.mark (c := '(') rfl hclosed

end Lexing

end Wkt

end FeatureTables
