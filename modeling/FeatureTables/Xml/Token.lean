import FeatureTables.Text.Utf8

/-!
The tokens of a document: tags, runs of text, CDATA sections, and the rest (comments, processing
instructions, document types). `Token.scan` cuts the bytes into tokens up to the first fault. The
reading is lenient: a tag that the end of the input breaks off counts as ended.
-/

namespace FeatureTables.Xml

open Text

/-! ### Cuts -/

/-- What stands before and after the first `b`; without one, everything and nothing. -/
def cutAt (b : UInt8) : Bytes → Bytes × Bytes
  | [] => ([], [])
  | c :: r => if c == b then ([], r) else let (x, y) := cutAt b r; (c :: x, y)

theorem cutAt_length (b : UInt8) (bs : Bytes) : (cutAt b bs).2.length ≤ bs.length := by
  induction bs with
  | nil => simp [cutAt]
  | cons c r ih =>
    unfold cutAt
    split
    · simp
    · exact Nat.le_succ_of_le ih

/-- A double or a single quote. -/
def isQuote (b : UInt8) : Bool := b == 0x22 || b == 0x27

/-- What stands before and after the first `>` outside quotes; `quote?` is the open quote. -/
def cutTag (quote? : Option UInt8) : Bytes → Bytes × Bytes
  | [] => ([], [])
  | c :: r =>
    match quote? with
    | some q =>
      let (x, y) := cutTag (if c == q then none else some q) r
      (c :: x, y)
    | none =>
      if c == byte '>' then ([], r)
      else
        let open? := if isQuote c then some c else none
        let (x, y) := cutTag open? r
        (c :: x, y)

theorem cutTag_length (quote? : Option UInt8) (bs : Bytes) :
    (cutTag quote? bs).2.length ≤ bs.length := by
  induction bs generalizing quote? with
  | nil => simp [cutTag]
  | cons c r ih =>
    unfold cutTag
    cases quote? with
    | some q => exact Nat.le_succ_of_le (ih _)
    | none =>
      dsimp only
      split
      · simp
      · exact Nat.le_succ_of_le (ih _)

/-- What stands before and after the first `>` at which `ok` holds of the bytes before it; these are
handed to `ok` last one first. -/
def cutWhere? (ok : Bytes → Bool) (seen : Bytes) : Bytes → Option (Bytes × Bytes)
  | [] => none
  | c :: r => if c == byte '>' && ok seen then some (seen.reverse, r) else cutWhere? ok (c :: seen) r

theorem cutWhere?_length {ok : Bytes → Bool} {seen bs x y : Bytes}
    (h : cutWhere? ok seen bs = some (x, y)) : y.length < bs.length := by
  induction bs generalizing seen with
  | nil => simp [cutWhere?] at h
  | cons c r ih =>
    unfold cutWhere? at h
    split at h
    · simp only [Option.some.injEq, Prod.mk.injEq] at h
      simp [h.2]
    · exact Nat.lt_succ_of_lt (ih h)

/-! ### Tokens -/

inductive Token where
  /-- A start tag: all between its brackets. -/
  | start (body : Bytes)
  /-- An empty-element tag: all between its brackets but the closing slash. -/
  | empty (body : Bytes)
  /-- An end tag: the name, without blanks after it. -/
  | stop (name : Bytes)
  | text (raw : Bytes)
  | cdata (raw : Bytes)
  /-- A comment, a processing instruction or a document type. -/
  | skipped
deriving DecidableEq

/-- The blanks between the parts of a tag. -/
def isSpace (b : UInt8) : Bool := b == 0x20 || b == 0x09 || b == 0x0A || b == 0x0D

/-- The blanks that may follow the name in an end tag. -/
def isEndSpace (b : UInt8) : Bool := isSpace b || b == 0x0C

/-- An ASCII letter as its small form. -/
def lower (b : UInt8) : UInt8 := if 0x41 ≤ b && b ≤ 0x5A then b + 0x20 else b

/-- `bs` starts with `start`, whatever the case of letters. -/
def startsFolded : (start bs : Bytes) → Bool
  | [], _ => true
  | _ :: _, [] => false
  | a :: start, b :: bs => lower a == lower b && startsFolded start bs

/-- The name without the blanks that follow it; a name of blanks stays. -/
def trimEndName (bs : Bytes) : Bytes :=
  if bs.all isEndSpace then bs else (bs.reverse.dropWhile isEndSpace).reverse

/-- The token of a tag body that is not an end tag. -/
def Token.ofBody (body : Bytes) : Token :=
  if body.getLast? == some (byte '/') then .empty body.dropLast else .start body

/-- The name in a tag body: all before the first blank. -/
def bodyName (body : Bytes) : Bytes := body.takeWhile fun b => !isSpace b

/-! ### Markup with an exclamation mark -/

/-- Ends of comments, sections and document types, told from the bytes before a `>`. -/
def endsComment (seen : Bytes) : Bool :=
  seen.take 2 == [byte '-', byte '-'] && 4 ≤ seen.length

def endsSection (seen : Bytes) : Bool := seen.take 2 == [byte ']', byte ']']

def endsDoctype (seen : Bytes) : Bool := seen.count (byte '<') == seen.count (byte '>')

/-- The token of what follows `<!`, and the rest. -/
def bang (bs : Bytes) : Except String (Token × Bytes) :=
  match bs with
  | [] => .error "end of input after an exclamation mark"
  | c :: _ =>
    if c == byte '-' then
      match cutWhere? endsComment [] bs with
      | some (body, r) =>
        if body.take 2 == [byte '-', byte '-'] then .ok (.skipped, r) else .error "not a comment"
      | none => .error "comment without an end"
    else if c == byte '[' then
      match cutWhere? endsSection [] bs with
      | some (body, r) =>
        if startsFolded (utf8 "[CDATA[") body then .ok (.cdata (body.drop 7).dropLast.dropLast, r)
        else .error "not a CDATA section"
      | none => .error "section without an end"
    else if lower c == byte 'd' then
      match cutWhere? endsDoctype [] bs with
      | some (body, r) =>
        if startsFolded (utf8 "DOCTYPE") body && (body.drop 7).any (!isSpace ·) then .ok (.skipped, r)
        else .error "not a document type"
      | none => .error "document type without an end"
    else .error "unknown markup"

theorem bang_length {bs r : Bytes} {t : Token} (h : bang bs = .ok (t, r)) :
    r.length < bs.length := by
  unfold bang at h
  split at h
  · simp at h
  · repeat' split at h
    all_goals first
      | (simp at h; done)
      | (simp only [Except.ok.injEq, Prod.mk.injEq] at h
         rw [← h.2]
         exact cutWhere?_length (by assumption))

/-! ### Scanning -/

/-- The token at the start of `bs` and the rest; `none` at the end of the input, which a lone `<`
counts as. -/
def Token.next? (bs : Bytes) : Option (Except String (Token × Bytes)) :=
  match bs with
  | [] => none
  | b :: r =>
    if b == byte '<' then
      match r with
      | [] => none
      | c :: r' =>
        if c == byte '!' then some (bang r')
        else if c == byte '/' then
          let (name, rest) := cutAt (byte '>') r'
          some (.ok (.stop (trimEndName name), rest))
        else if c == byte '?' then
          let (body, rest) := cutAt (byte '>') r'
          if body.getLast? == some (byte '?') && 2 ≤ body.length then some (.ok (.skipped, rest))
          else some (.error "processing instruction without an end")
        else
          let (body, rest) := cutTag none r
          some (.ok (.ofBody body, rest))
    else some (.ok (.text (bs.takeWhile (· != byte '<')), bs.dropWhile (· != byte '<')))

theorem Token.next?_length {bs r : Bytes} {t : Token} (h : Token.next? bs = some (.ok (t, r))) :
    r.length < bs.length := by
  unfold Token.next? at h
  split at h
  · simp at h
  · rename_i b r'
    split at h
    · split at h
      · simp at h
      · rename_i c r''
        split at h
        · simp only [Option.some.injEq] at h
          have := bang_length h
          simp; omega
        · split at h
          · simp only [Option.some.injEq, Except.ok.injEq, Prod.mk.injEq] at h
            have := cutAt_length (byte '>') r''
            rw [← h.2]; simp; omega
          · split at h
            · dsimp only at h
              split at h
              · simp only [Option.some.injEq, Except.ok.injEq, Prod.mk.injEq] at h
                have := cutAt_length (byte '>') r''
                rw [← h.2]; simp; omega
              · simp at h
            · simp only [Option.some.injEq, Except.ok.injEq, Prod.mk.injEq] at h
              have := cutTag_length none (c :: r'')
              rw [← h.2]; simp at this ⊢; omega
    · rename_i hb
      simp only [Option.some.injEq, Except.ok.injEq, Prod.mk.injEq] at h
      rw [← h.2]
      have hb' : (b != byte '<') = true := by simpa using hb
      rw [List.dropWhile_cons, if_pos hb']
      have := (List.dropWhile_suffix (fun x => x != byte '<') (l := r')).length_le
      simp; omega

/-- The tokens of `bs` up to the first fault, with that fault. -/
def Token.scan (bs : Bytes) : List Token × Option String :=
  match _h : Token.next? bs with
  | none => ([], none)
  | some (.error fault) => ([], some fault)
  | some (.ok (t, r)) =>
    let (ts, fault?) := Token.scan r
    (t :: ts, fault?)
termination_by bs.length
decreasing_by exact Token.next?_length _h

/-- The bytes without the mark that some writers put in front of UTF-8. -/
def withoutMark : Bytes → Bytes
  | 0xEF :: 0xBB :: 0xBF :: r => r
  | bs => bs

/-! ### Attributes -/

/-- The attributes in the part of a tag after its name, up to the first fault, with that fault. -/
def attributesFrom (bs : Bytes) : List (Bytes × Bytes) × Option String :=
  match _h : bs.dropWhile isSpace with
  | [] => ([], none)
  | c :: r =>
    let stops (b : UInt8) : Bool := b == byte '=' || isSpace b
    let key := c :: r.takeWhile (!stops ·)
    match _h₂ : (r.dropWhile (!stops ·)).dropWhile isSpace with
    | [] => ([], some "no equals sign after the name")
    | e :: v =>
      if e == byte '=' then
        match _h₃ : v.dropWhile isSpace with
        | [] => ([], some "no value")
        | q :: w =>
          if isQuote q then
            if w.contains q then
              let rest := attributesFrom (cutAt q w).2
              ((key, (cutAt q w).1) :: rest.1, rest.2)
            else ([], some "no closing quote")
          else ([], some "value without quotes")
      else ([], some "no equals sign after the name")
termination_by bs.length
decreasing_by
  have h₁ := congrArg List.length _h
  have h₂ := congrArg List.length _h₂
  have h₃ := congrArg List.length _h₃
  have s₁ := (List.dropWhile_suffix isSpace (l := bs)).length_le
  have s₂ := (List.dropWhile_suffix (fun x => !stops x) (l := r)).length_le
  have s₃ := (List.dropWhile_suffix isSpace (l := r.dropWhile (fun x => !stops x))).length_le
  have s₄ := (List.dropWhile_suffix isSpace (l := v)).length_le
  have s₅ := cutAt_length q w
  simp only [List.length_cons] at h₁ h₂ h₃
  omega

/-- The attributes of a tag body. -/
def bodyAttributes (body : Bytes) : List (Bytes × Bytes) × Option String :=
  attributesFrom (body.dropWhile fun b => !isSpace b)

end FeatureTables.Xml
