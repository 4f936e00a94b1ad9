import FeatureTables.Json.Reader
import Mathlib.Data.List.TakeWhile

/-!
Texts and numbers of JSON are read back as they were written, whatever stands behind them
(`readText?_quoted`, `readNumber?_append`). Behind a number only the characters that end a value may
stand, since it has no end of its own.
-/

namespace FeatureTables.Json

open Number

/-! ### Texts -/

theorem hex4?_byte : ∀ n < 32, hex4? '0' '0' (hexDigit (n / 16)) (hexDigit (n % 16)) = some n := by
  decide

/-- The form of a character inside of quotes is read as one unit. -/
theorem readUnits?_escape (c : Char) (acc : List TextUnit) (r : List Char) :
    readUnits? acc (escape c ++ r) = readUnits? (.char c :: acc) r := by
  have hc : Char.ofNat c.toNat = c := Char.ofNat_toNat c
  unfold escape
  by_cases hspecial : c = '\x22' ∨ c = '\\' ∨ c = '\n' ∨ c = '\r' ∨ c = '\t' ∨ c = '\x08' ∨ c = '\x0c'
  · rcases hspecial with rfl | rfl | rfl | rfl | rfl | rfl | rfl <;> rfl
  simp only [not_or] at hspecial
  obtain ⟨hquote, hslash, hn, hr, ht, hb, hf⟩ := hspecial
  rw [if_neg hquote, if_neg hslash, if_neg hn, if_neg hr, if_neg ht, if_neg hb, if_neg hf]
  by_cases hlow : c.toNat < 0x20
  · have hunit : TextUnit.ofNat c.toNat = .char c := by
      rw [TextUnit.ofNat, if_neg (by omega), hc]
    rw [if_pos hlow]
    simp only [List.cons_append, List.nil_append]
    rw [readUnits?, hex4?_byte _ hlow]
    simp only [hunit]
  · rw [if_neg hlow, List.singleton_append, readUnits?, if_neg (by simp [hlow, hslash])]
    · exact hquote
    · rintro _ _ _ _ _ rfl
      exact absurd rfl hslash
    · rintro _ _ rfl
      exact absurd rfl hslash

theorem readUnits?_escaped (cs : List Char) (acc : List TextUnit) (r : List Char) :
    readUnits? acc (cs.flatMap escape ++ '\x22' :: r) = some (acc.reverse ++ cs.map .char, r) := by
  induction cs generalizing acc with
  | nil => simp [readUnits?]
  | cons c cs ih =>
    rw [List.flatMap_cons, List.append_assoc, readUnits?_escape, ih, List.reverse_cons,
      List.append_assoc, List.map_cons, List.singleton_append]

theorem joinUnits?_chars (cs acc : List Char) :
    joinUnits? acc (cs.map .char) = some (acc.reverse ++ cs) := by
  induction cs generalizing acc with
  | nil => simp [joinUnits?]
  | cons c cs ih => simp [joinUnits?, ih]

theorem toList_quoted (s : String) :
    (quoted s).toList = '\x22' :: (s.toList.flatMap escape ++ ['\x22']) := by
  simp [quoted]

/-- A quoted text is read as it, up to its closing quote. -/
theorem readText?_quoted (s : String) (r : List Char) :
    readText? (s.toList.flatMap escape ++ '\x22' :: r) = some (some s, r) := by
  rw [readText?, readUnits?_escaped]
  simp [joinUnits?_chars]

/-! ### What ends a value -/

/-- Nothing follows, or one of the characters that end a value inside of another one. -/
def Ends (r : List Char) : Prop := ∀ c ∈ r.head?, c = ',' ∨ c = ']' ∨ c = '\x7d'

theorem ends_nil : Ends [] := by
  simp [Ends]

theorem ends_cons {c : Char} {r : List Char} (h : c = ',' ∨ c = ']' ∨ c = '\x7d') : Ends (c :: r) := by
  simpa [Ends] using h

theorem Ends.cases {r : List Char} (h : Ends r) :
    r = [] ∨ ∃ c r', r = c :: r' ∧ (c = ',' ∨ c = ']' ∨ c = '\x7d') := by
  cases r with
  | nil => exact Or.inl rfl
  | cons c r => exact Or.inr ⟨c, r, rfl, h c rfl⟩

theorem Ends.skipSpace {r : List Char} (h : Ends r) : skipSpace r = r := by
  rcases h.cases with rfl | ⟨c, r, rfl, rfl | rfl | rfl⟩ <;> rfl

/-! ### Numbers -/

section Numbers

variable {s r : List Char}

theorem leadingDigits_append (hr : Ends r) : Binary64.leadingDigits (s ++ r) =
    ((Binary64.leadingDigits s).1, (Binary64.leadingDigits s).2 ++ r) := by
  unfold Binary64.leadingDigits
  induction s with
  | nil => rcases hr.cases with rfl | ⟨c, r, rfl, rfl | rfl | rfl⟩ <;> rfl
  | cons c s ih =>
    obtain ⟨htake, hdrop⟩ := Prod.mk.inj ih
    cases hc : c.isDigit with
    | true => simp [hc, htake, hdrop]
    | false => simp [hc]

theorem sign_append (hs : s ≠ []) :
    Binary64.sign (s ++ r) = ((Binary64.sign s).1, (Binary64.sign s).2 ++ r) := by
  cases s with
  | nil => exact absurd rfl hs
  | cons c s =>
    by_cases hminus : c = '-'
    · subst hminus
      rfl
    by_cases hplus : c = '+'
    · subst hplus
      rfl
    simp [Binary64.sign, hminus, hplus]

theorem readExponent?_append {x? : Option Int} (h : readExponent? s = some (x?, [])) (hr : Ends r) :
    readExponent? (s ++ r) = some (x?, r) := by
  cases s with
  | nil =>
    obtain rfl : none = x? := by simpa [readExponent?] using h
    rcases hr.cases with rfl | ⟨c, r, rfl, rfl | rfl | rfl⟩ <;> rfl
  | cons c s =>
    rw [List.cons_append]
    by_cases hc : c = 'e' ∨ c = 'E'
    · have hs : s ≠ [] := by
        rintro rfl
        simp [readExponent?, hc, Binary64.sign, Binary64.leadingDigits, digits?] at h
      simp only [readExponent?, if_pos hc, Option.map_eq_some_iff, Prod.mk.injEq] at h ⊢
      obtain ⟨n, hn, hx, hrest⟩ := h
      rw [sign_append hs]
      simp only [leadingDigits_append hr, hrest]
      exact ⟨n, hn, hx, rfl⟩
    · simp [readExponent?, hc] at h

/-- The point with the digits after it at the start of the text, if one stands there. -/
def readFraction? : List Char → Option (Option (List Char) × List Char)
  | '.' :: s =>
    if (Binary64.leadingDigits s).1.isEmpty then none
    else some (some (Binary64.leadingDigits s).1, (Binary64.leadingDigits s).2)
  | s => some (none, s)

theorem readFraction?_of_ne {c : Char} (hc : c ≠ '.') : readFraction? (c :: s) = some (none, c :: s) := by
  simp [readFraction?, hc]

theorem readFraction?_append {fraction? : Option (List Char)} {t : List Char}
    (h : readFraction? s = some (fraction?, t)) (hr : Ends r) :
    readFraction? (s ++ r) = some (fraction?, t ++ r) := by
  cases s with
  | nil =>
    obtain ⟨rfl, rfl⟩ := Prod.mk.inj (Option.some.inj h)
    rcases hr.cases with rfl | ⟨c, r, rfl, rfl | rfl | rfl⟩ <;> rfl
  | cons c s =>
    by_cases hc : c = '.'
    · subst hc
      rw [List.cons_append]
      simp only [readFraction?, leadingDigits_append hr] at h ⊢
      split at h
      · cases h
      · rename_i hdigits
        obtain ⟨rfl, rfl⟩ := Prod.mk.inj (Option.some.inj h)
        rw [if_neg hdigits]
    · rw [readFraction?_of_ne hc] at h
      obtain ⟨rfl, rfl⟩ := Prod.mk.inj (Option.some.inj h)
      exact readFraction?_of_ne hc

/-- A number is read part by part. -/
theorem readNumber?_eq (negative : Bool) (s : List Char) : readNumber? negative s =
    if (Binary64.leadingDigits s).1.isEmpty ∨
        ((Binary64.leadingDigits s).1.length ≠ 1 ∧ (Binary64.leadingDigits s).1.head? = some '0') then none
    else (readFraction? (Binary64.leadingDigits s).2).bind fun part => (readExponent? part.2).map fun e =>
      (.ofParts negative (Binary64.leadingDigits s).1 part.1 e.1, e.2) := by
  rcases hparts : Binary64.leadingDigits s with ⟨whole, t⟩
  unfold readNumber?
  rw [hparts]
  by_cases hwhole : whole.isEmpty = true ∨ (whole.length ≠ 1 ∧ whole.head? = some '0')
  · simp only [if_pos hwhole]
  simp only [if_neg hwhole, readFraction?]
  cases t with
  | nil => rfl
  | cons c t =>
    by_cases hc : c = '.'
    · subst hc
      cases hempty : (Binary64.leadingDigits t).1.isEmpty <;> simp [hempty]
    · simp [hc]

theorem readNumber?_append {negative : Bool} {x : Num} (h : readNumber? negative s = some (x, []))
    (hr : Ends r) : readNumber? negative (s ++ r) = some (x, r) := by
  rw [readNumber?_eq] at h ⊢
  rw [leadingDigits_append hr]
  split at h
  · cases h
  · rename_i hwhole
    obtain ⟨⟨fraction?, t⟩, hfraction, h⟩ := Option.bind_eq_some_iff.1 h
    obtain ⟨⟨x?, _⟩, hx, hnumber⟩ := Option.map_eq_some_iff.1 h
    obtain ⟨rfl, rfl⟩ := Prod.mk.inj hnumber
    rw [if_neg hwhole, readFraction?_append hfraction hr, Option.bind_some, readExponent?_append hx hr,
      Option.map_some]

/-! ### Whole numbers -/

theorem le_ofDigitChars (ds : List Char) (word : Nat) : word ≤ Nat.ofDigitChars 10 ds word := by
  induction ds generalizing word with
  | nil => exact Nat.le_refl _
  | cons c ds ih =>
    rw [Nat.ofDigitChars_cons]
    exact Nat.le_trans (by omega) (ih _)

/-- Digits are taken as long as their number is a word. -/
theorem gather_eq {ds : List Char} (word taken : Nat) (h : Nat.ofDigitChars 10 ds word ≤ wordMax) :
    gather word taken ds = (Nat.ofDigitChars 10 ds word, taken + ds.length, []) := by
  induction ds generalizing word taken with
  | nil => rfl
  | cons c ds ih =>
    have hnext : Nat.ofDigitChars 10 (c :: ds) word =
        Nat.ofDigitChars 10 ds (word * 10 + (c.toNat - 48)) := by
      rw [Nat.ofDigitChars_cons, Nat.mul_comm]
      rfl
    rw [hnext] at h ⊢
    rw [gather, if_pos (Nat.le_trans (le_ofDigitChars _ _) h), ih _ _ h]
    simp only [List.length_cons, Prod.mk.injEq, and_true, true_and]
    omega

theorem head?_toDigits {n : Nat} (hn : 0 < n) : (Nat.toDigits 10 n).head? ≠ some '0' := by
  induction n using Nat.strongRecOn with
  | ind n ih =>
    by_cases hlt : n < 10
    · have hdigit : ∀ d < 10, 0 < d → d.digitChar ≠ '0' := by decide
      rw [Nat.toDigits_of_lt_base hlt, List.head?_cons, Ne, Option.some.injEq]
      exact hdigit n hlt hn
    · have hfirst := ih (n / 10) (by omega) (by omega)
      rw [Nat.toDigits_of_base_le (by decide) (by omega), List.head?_append]
      cases hhead : (Nat.toDigits 10 (n / 10)).head? with
      | none => exact absurd (List.head?_eq_none_iff.1 hhead) Nat.toDigits_ne_nil
      | some c => rwa [hhead] at hfirst

theorem leadingDigits_toDigits (n : Nat) :
    Binary64.leadingDigits (Nat.toDigits 10 n) = (Nat.toDigits 10 n, []) := by
  have hall : ∀ c ∈ Nat.toDigits 10 n, c.isDigit = true := fun c hc =>
    Nat.isDigit_of_mem_toDigits (by decide) (by decide) hc
  rw [Binary64.leadingDigits, List.takeWhile_eq_self_iff.2 hall, List.dropWhile_eq_nil_iff.2 hall]

theorem readNumber?_toDigits (negative : Bool) (n : Nat) :
    readNumber? negative (Nat.toDigits 10 n) =
      some (.ofParts negative (Nat.toDigits 10 n) none none, []) := by
  have hwhole : ¬ ((Nat.toDigits 10 n).isEmpty = true ∨
      ((Nat.toDigits 10 n).length ≠ 1 ∧ (Nat.toDigits 10 n).head? = some '0')) := by
    rintro (hempty | ⟨hlength, hzero⟩)
    · exact Nat.toDigits_ne_nil (List.isEmpty_iff.1 hempty)
    · rcases Nat.eq_zero_or_pos n with rfl | hn
      · exact hlength rfl
      · exact head?_toDigits hn hzero
  rw [readNumber?_eq, leadingDigits_toDigits, if_neg hwhole]
  rfl

theorem gather_toDigits {n : Nat} (hn : n ≤ wordMax) :
    gather 0 0 (Nat.toDigits 10 n) = (n, (Nat.toDigits 10 n).length, []) := by
  have hvalue : Nat.ofDigitChars 10 (Nat.toDigits 10 n) 0 = n := Nat.ofDigitChars_ten_toDigits
  rw [gather_eq 0 0 (hvalue.trans_le hn), hvalue, Nat.zero_add]

theorem ofParts_natural {n : Nat} (hn : n ≤ wordMax) :
    Num.ofParts false (Nat.toDigits 10 n) none none = .natural n := by
  rw [Num.ofParts, gather_toDigits hn]
  rfl

theorem ofParts_negative {n : Nat} (hpos : 0 < n) (hn : n ≤ Nat.pow 2 63) :
    Num.ofParts true (Nat.toDigits 10 n) none none = .negative n := by
  rw [Num.ofParts, gather_toDigits (Nat.le_trans hn (by decide))]
  simp [Nat.ne_of_gt hpos, show n ≤ 9223372036854775808 from hn]

/-! ### Numbers with a sign -/

/-- A number with its sign. -/
def readSigned? : List Char → Option (Num × List Char)
  | '-' :: s => readNumber? true s
  | s => readNumber? false s

theorem readSigned?_of_ne {c : Char} (hc : c ≠ '-') : readSigned? (c :: s) = readNumber? false (c :: s) := by
  simp [readSigned?, hc]

theorem readSigned?_append {x : Num} (h : readSigned? s = some (x, [])) (hr : Ends r) :
    readSigned? (s ++ r) = some (x, r) := by
  cases s with
  | nil => cases h
  | cons c s =>
    by_cases hc : c = '-'
    · subst hc
      exact readNumber?_append h hr
    · rw [readSigned?_of_ne hc] at h
      rw [List.cons_append, readSigned?_of_ne hc]
      exact readNumber?_append h hr

/-- A number starts with a digit. -/
theorem isDigit_of_readNumber? {negative : Bool} {p : Num × List Char} {c : Char}
    (h : readNumber? negative (c :: s) = some p) : c.isDigit = true := by
  cases hc : c.isDigit with
  | true => rfl
  | false => simp [readNumber?_eq, Binary64.leadingDigits, hc] at h

theorem suffix_of_readNumber? {negative : Bool} {p : Num × List Char}
    (h : readNumber? negative s = some p) : p.2 <:+ s := by
  have hdigits : ∀ t, (Binary64.leadingDigits t).2 <:+ t := fun t => List.dropWhile_suffix _
  have hsign : ∀ t, (Binary64.sign t).2 <:+ t := by
    intro t
    unfold Binary64.sign
    split
    · exact List.suffix_cons _ _
    · exact List.suffix_cons _ _
    · exact List.suffix_refl _
  have hfraction : ∀ t q, readFraction? t = some q → q.2 <:+ t := by
    intro t q hq
    unfold readFraction? at hq
    split at hq
    · split at hq
      · cases hq
      · obtain rfl := Option.some.inj hq
        exact (hdigits _).trans (List.suffix_cons _ _)
    · obtain rfl := Option.some.inj hq
      exact List.suffix_refl _
  have hexponent : ∀ t q, readExponent? t = some q → q.2 <:+ t := by
    intro t q hq
    unfold readExponent? at hq
    split at hq
    · split at hq
      · obtain ⟨n, -, rfl⟩ := Option.map_eq_some_iff.1 hq
        exact ((hdigits _).trans (hsign _)).trans (List.suffix_cons _ _)
      · obtain rfl := Option.some.inj hq
        exact List.suffix_refl _
    · obtain rfl := Option.some.inj hq
      exact List.suffix_refl _
  rw [readNumber?_eq] at h
  split at h
  · cases h
  · obtain ⟨part, hpart, h⟩ := Option.bind_eq_some_iff.1 h
    obtain ⟨e, he, rfl⟩ := Option.map_eq_some_iff.1 h
    exact ((hexponent _ _ he).trans (hfraction _ _ hpart)).trans (hdigits _)

theorem suffix_of_readSigned? {p : Num × List Char} (h : readSigned? s = some p) : p.2 <:+ s := by
  cases s with
  | nil => cases h
  | cons c s =>
    by_cases hc : c = '-'
    · subst hc
      exact (suffix_of_readNumber? h).trans (List.suffix_cons _ _)
    · rw [readSigned?_of_ne hc] at h
      exact suffix_of_readNumber? h

/-! ### The text of a number -/

theorem mem_dropZeros {c : Char} {ds : List Char} (h : c ∈ (dropZeros ds).1) : c ∈ ds := by
  fun_induction dropZeros ds with
  | case1 => cases h
  | case2 => cases h
  | case3 d ds n _ _ ih =>
    obtain rfl := List.mem_singleton.1 h
    exact List.mem_cons_self
  | case4 d ds es n hne hrest ih =>
    rcases List.mem_cons.1 h with rfl | h
    · exact List.mem_cons_self
    · exact List.mem_cons_of_mem _ (ih (by rwa [hrest]))

theorem mem_positional {c : Char} {ds : List Char} {k : Int} (h : c ∈ positional ds k) :
    c ∈ ds ∨ c = '0' ∨ c = '.' := by
  unfold positional at h
  split at h
  · rcases List.mem_append.1 h with h | h
    · exact Or.inl h
    · exact Or.inr (Or.inl (List.eq_of_mem_replicate h))
  · simp only at h
    split at h
    · simp only [List.mem_append, List.mem_cons] at h
      rcases h with h | h | h
      · exact Or.inl (List.mem_of_mem_take h)
      · exact Or.inr (Or.inr h)
      · exact Or.inl (List.mem_of_mem_drop h)
    · simp only [List.cons_append, List.mem_append, List.mem_cons] at h
      rcases h with h | h | h | h
      · exact Or.inr (Or.inl h)
      · exact Or.inr (Or.inr h)
      · exact Or.inr (Or.inl (List.eq_of_mem_replicate h))
      · exact Or.inl h

/-- There are no blanks in the text. -/
def Unspaced (s : List Char) : Prop := ∀ c ∈ s, isSpace c = false

instance (s : List Char) : Decidable (Unspaced s) :=
  List.decidableBAll (fun c => isSpace c = false) s

theorem Unspaced.append {s t : List Char} (hs : Unspaced s) (ht : Unspaced t) : Unspaced (s ++ t) :=
  fun c hc => (List.mem_append.1 hc).elim (hs c) (ht c)

theorem unspaced_of_digits {s : List Char} (h : ∀ c ∈ s, c.isDigit = true) : Unspaced s := by
  intro c hc
  have hdigit := h c hc
  cases hspace : isSpace c with
  | false => rfl
  | true =>
    simp only [isSpace, Bool.or_eq_true, beq_iff_eq] at hspace
    rcases hspace with ((rfl | rfl) | rfl) | rfl <;> cases hdigit

theorem unspaced_toDigits (n : Nat) : Unspaced (Nat.toDigits 10 n) :=
  unspaced_of_digits fun _ hc => Nat.isDigit_of_mem_toDigits (by decide) (by decide) hc

theorem unspaced_shortestDigits (tie : Tie) (m : Nat) (e : Int) : Unspaced (shortestDigits tie m e).1 :=
  fun c hc => unspaced_toDigits _ c (mem_dropZeros hc)

theorem Unspaced.positional {ds : List Char} (h : Unspaced ds) (k : Int) : Unspaced (positional ds k) := by
  intro c hc
  rcases mem_positional hc with hc | rfl | rfl
  · exact h c hc
  · rfl
  · rfl

/-- Only a finite number has a text. -/
theorem isSome_dataText? (x : Binary64) : x.dataText?.isSome = x.isFinite := by
  cases x with
  | nan => rfl
  | infinite b => rfl
  | finite b m e hcanonical =>
    simp only [Binary64.dataText?, Binary64.isFinite]
    split
    · rfl
    · split <;> rfl

/-- The text of a binary number has no blanks. -/
theorem unspaced_dataText {x : Binary64} {text : String} (h : x.dataText? = some text) :
    Unspaced text.toList := by
  cases x with
  | nan => cases h
  | infinite b => cases h
  | finite b m e hcanonical =>
    have hsign : Unspaced (Binary64.signText b).toList := by
      cases b <;> decide
    have hdigits := unspaced_shortestDigits .toEven m e
    have hpositional := hdigits.positional (shortestDigits .toEven m e).2
    simp only [Binary64.dataText?] at h
    split at h
    · obtain rfl := Option.some.inj h
      rw [String.toList_append]
      exact hsign.append (by decide)
    split at h
    · obtain rfl := Option.some.inj h
      rw [String.toList_append]
      refine hsign.append ?_
      split
      · rw [String.toList_append, String.toList_ofList]
        exact hpositional.append (by decide)
      · rwa [String.toList_ofList]
    · obtain rfl := Option.some.inj h
      simp only [String.toList_append, String.toList_ofList, Nat.toString_eq_ofList_toDigits]
      refine (hsign.append (Unspaced.append ?_ ?_)).append (Unspaced.append ?_ (unspaced_toDigits _))
      · exact fun c hc => hdigits c (List.mem_of_mem_take hc)
      · split
        · exact fun c hc => nomatch hc
        · intro c hc
          rcases List.mem_cons.1 hc with rfl | hc
          · rfl
          · exact hdigits c (List.mem_of_mem_drop hc)
      · split <;> decide

end Numbers

end FeatureTables.Json
