/-!
The pieces of a text between the places where a separator stands, and what is built on them:
replacement, and the cut at the first place.
-/

namespace FeatureTables.Text

/-! ### Where the separator stands -/

/-- The rest of `s` after `sep`, when `s` starts with it. -/
def after? : (sep s : List Char) → Option (List Char)
  | [], s => some s
  | _ :: _, [] => none
  | a :: sep, b :: s => if a = b then after? sep s else none

theorem eq_append_of_after? {sep s r : List Char} (h : after? sep s = some r) : s = sep ++ r := by
  induction sep generalizing s with
  | nil => simpa [after?] using h
  | cons a sep ih =>
    cases s with
    | nil => simp [after?] at h
    | cons b s =>
      by_cases hab : a = b
      · simp only [after?, hab, if_true] at h
        simp [hab, ih h]
      · simp [after?, hab] at h

/-! ### Pieces -/

/-- The pieces of `s` around the occurrences of a separator that is not empty, found from left to
right without overlap; `run` is the open piece, last character first. -/
def piecesFrom (a : Char) (sep : List Char) (run : List Char) (s : List Char) : List (List Char) :=
  match s with
  | [] => [run.reverse]
  | c :: t =>
    match _h : after? (a :: sep) (c :: t) with
    | some rest => run.reverse :: piecesFrom a sep [] rest
    | none => piecesFrom a sep (c :: run) t
termination_by s.length
decreasing_by
  · have := congrArg List.length (eq_append_of_after? _h); simp at this; simp; omega
  · simp

/-- The pieces of `s` around the occurrences of `sep`. The empty separator stands at every
boundary, the two ends included. -/
def pieces : (sep s : List Char) → List (List Char)
  | [], s => [] :: (s.map fun c => [c]) ++ [[]]
  | a :: sep, s => piecesFrom a sep [] s

def splitOn (sep s : String) : List String := (pieces sep.toList s.toList).map String.ofList

/-- `s` with `new` in place of every occurrence of `old`. -/
def replace (old new s : String) : String := String.intercalate new (splitOn old s)

/-- `s` is of the form `start ++ rest`, as characters. -/
def startsWith (s start : String) : Bool := (after? start.toList s.toList).isSome

/-- The rest of `s` after `start`, when it starts so. -/
def dropStart? (s start : String) : Option String :=
  (after? start.toList s.toList).map String.ofList

def endsWith (s tail : String) : Bool := (after? tail.toList.reverse s.toList.reverse).isSome

/-- `part` stands somewhere in `s`. -/
def containsText (s part : String) : Bool := 1 < (splitOn part s).length

/-! ### One cut -/

/-- What stands before and after the first character of `s` that passes `p`. -/
def cutAt? (p : Char → Bool) : List Char → Option (List Char × List Char)
  | [] => none
  | c :: s => if p c then some ([], s) else (cutAt? p s).map fun (a, b) => (c :: a, b)

/-- What stands before and after the first `c` in `s`. -/
def splitOnce (c : Char) (s : String) : Option (String × String) :=
  (cutAt? (· == c) s.toList).map fun (a, b) => (String.ofList a, String.ofList b)

end FeatureTables.Text
