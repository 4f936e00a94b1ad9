import FeatureTables.Proofs.Json.Token
import Mathlib.Data.List.DropRight

/-!
A value is read back from its compact form (`read?_compact`), but for three things: numbers that are not
finite and unreadable parts are written as null, and what stands below too many levels is unreadable.
-/

namespace FeatureTables

open Number

/-- The number is read back from its text. -/
def Number.Binary64.ReadsBack (x : Binary64) : Prop := Json.read? (Json.real x).compact = some (.real x)

namespace Json

/-! ### What is read back -/

mutual
/-- The numbers in a value. -/
def numbers : Json → List Num
  | number n => [n]
  | array items => numbersOfItems items
  | object members => numbersOfMembers members
  | _ => []
def numbersOfItems : List Json → List Num
  | [] => []
  | j :: js => numbers j ++ numbersOfItems js
def numbersOfMembers : List (String × Json) → List Num
  | [] => []
  | (_, j) :: ms => numbers j ++ numbersOfMembers ms
end

/-- The number stands within a word, or is a binary one that is read back if it is written at all. -/
def Num.Exact : Num → Prop
  | natural n => n ≤ wordMax
  | negative n => 0 < n ∧ n ≤ Nat.pow 2 63
  | real x => x.isFinite = true → x.ReadsBack
  | tooLarge => True

/-- All numbers in the value are exact. -/
def Exact (j : Json) : Prop := ∀ x ∈ j.numbers, x.Exact

/-- What is read where the number was written. -/
def Num.reread : Num → Json
  | real x => if x.isFinite then .real x else null
  | tooLarge => null
  | n => number n

mutual
/-- What is read where the value was written, with `room` levels that may still open. -/
def reread (room : Nat) : Json → Json
  | number n => n.reread
  | array items => if room = 0 then unreadable else array (rereadItems (room - 1) items)
  | object members => if room = 0 then unreadable else object (rereadMembers (room - 1) members)
  | unreadable => null
  | j => j
def rereadItems (room : Nat) : List Json → List Json
  | [] => []
  | j :: js => reread room j :: rereadItems room js
def rereadMembers (room : Nat) : List (String × Json) → List (String × Json)
  | [] => []
  | (k, j) :: ms => (k, reread room j) :: rereadMembers room ms
end

theorem rereadItems_eq (room : Nat) (js : List Json) : rereadItems room js = js.map (reread room) := by
  induction js with
  | nil => rfl
  | cons j js ih => rw [rereadItems, ih, List.map_cons]

theorem rereadMembers_eq (room : Nat) (ms : List (String × Json)) :
    rereadMembers room ms = ms.map fun m => (m.1, reread room m.2) := by
  induction ms with
  | nil => rfl
  | cons m ms ih => rw [rereadMembers, ih, List.map_cons]

theorem numbersOfItems_eq (js : List Json) : numbersOfItems js = js.flatMap numbers := by
  induction js with
  | nil => rfl
  | cons j js ih => rw [numbersOfItems, ih, List.flatMap_cons]

theorem numbersOfMembers_eq (ms : List (String × Json)) :
    numbersOfMembers ms = ms.flatMap fun m => numbers m.2 := by
  induction ms with
  | nil => rfl
  | cons m ms ih => rw [numbersOfMembers, ih, List.flatMap_cons]

theorem exact_array {items : List Json} : (array items).Exact ↔ ∀ j ∈ items, j.Exact := by
  simp only [Exact, numbers, numbersOfItems_eq, List.mem_flatMap]
  exact ⟨fun h j hj x hx => h x ⟨j, hj, hx⟩, fun h x ⟨j, hj, hx⟩ => h j hj x hx⟩

theorem exact_object {members : List (String × Json)} :
    (object members).Exact ↔ ∀ m ∈ members, m.2.Exact := by
  simp only [Exact, numbers, numbersOfMembers_eq, List.mem_flatMap]
  exact ⟨fun h m hm x hx => h x ⟨m, hm, hx⟩, fun h x ⟨m, hm, hx⟩ => h m hm x hx⟩

theorem exact_number {x : Num} : (number x).Exact ↔ x.Exact := by
  simp [Exact, numbers]

theorem exact_null : null.Exact := fun _ h => nomatch h

theorem exact_bool (b : Bool) : (bool b).Exact := fun _ h => nomatch h

theorem exact_string (s : String) : (string s).Exact := fun _ h => nomatch h

theorem exact_nat {n : Nat} (h : n ≤ wordMax) : (nat n).Exact := exact_number.2 h

theorem exact_real {x : Binary64} (h : x.isFinite = true → x.ReadsBack) : (real x).Exact := exact_number.2 h

/-- A whole number of a signed word is exact. -/
theorem exact_int {bits : Nat} (hbits : bits ≤ 63) {n : Int}
    (h : -(Nat.pow 2 bits : Int) ≤ n ∧ n < (Nat.pow 2 bits : Int)) : (Json.int n).Exact := by
  have hpow : Nat.pow 2 bits ≤ Nat.pow 2 63 := Nat.pow_le_pow_right (by decide) hbits
  have hword : Nat.pow 2 63 ≤ wordMax := by decide
  unfold Json.int
  split
  · refine exact_number.2 ⟨by omega, ?_⟩
    omega
  · refine exact_nat ?_
    omega

theorem reread_bool (b : Bool) (room : Nat) : (bool b).reread room = bool b := rfl

theorem reread_string (s : String) (room : Nat) : (string s).reread room = string s := rfl

theorem reread_nat (n room : Nat) : (nat n).reread room = nat n := rfl

theorem reread_int (n : Int) (room : Nat) : (int n).reread room = int n := by
  unfold Json.int
  split <;> rfl

theorem reread_real (x : Binary64) (room : Nat) :
    (real x).reread room = if x.isFinite then real x else null := rfl

theorem reread_array (room : Nat) (items : List Json) :
    (array items).reread (room + 1) = array (items.map (reread room)) := by
  rw [reread, if_neg (Nat.succ_ne_zero _), rereadItems_eq]
  rfl

theorem reread_object (room : Nat) (members : List (String × Json)) :
    (object members).reread (room + 1) = object (members.map fun m => (m.1, m.2.reread room)) := by
  rw [reread, if_neg (Nat.succ_ne_zero _), rereadMembers_eq]
  rfl

/-! ### Dispatch on the first character -/

section Dispatch

variable {n room : Nat} {s r : List Char}

theorem skipSpace_cons {c : Char} (hc : isSpace c = false) : skipSpace (c :: s) = c :: s := by
  simp [skipSpace, hc]

theorem readValue?_of_readSigned? {x : Num} (h : readSigned? s = some (x, r)) :
    readValue? (n + 1) room s = some (.number x, r) := by
  cases s with
  | nil => cases h
  | cons c s =>
    by_cases hc : c = '-'
    · subst hc
      rw [readValue?, skipSpace_cons rfl]
      exact congrArg (Option.map _) h
    · rw [readSigned?_of_ne hc] at h
      have hdigit := isDigit_of_readNumber? h
      rw [readValue?, skipSpace_cons (unspaced_of_digits (s := [c]) (by simpa using hdigit) c
        List.mem_cons_self)]
      split
      case h_8 => exact congrArg (Option.map _) h
      all_goals
        rename_i heq
        obtain ⟨rfl, -⟩ := List.cons.inj heq
        first | exact absurd rfl hc | cases hdigit

/-- Only a number is read as one. -/
theorem readSigned?_of_readValue? {x : Num} (h : readValue? (n + 1) room s = some (.number x, r)) :
    readSigned? (skipSpace s) = some (x, r) := by
  have hread : ∀ {α : Type} {make : α → Json}, (∀ a, make a ≠ number x) →
      ∀ content?, ofRead make content? ≠ number x := by
    intro α make hmake content?
    cases content? with
    | none => exact Json.noConfusion
    | some a => exact hmake a
  have hlevel : ∀ {α : Type} {make : α → Json}, (∀ a, make a ≠ number x) →
      ∀ content?, ofLevel room make content? ≠ number x := by
    intro α make hmake content?
    unfold ofLevel
    split
    · exact Json.noConfusion
    · exact hread hmake content?
  have hstring := hread fun s : String => (Json.noConfusion : Json.string s ≠ number x)
  have harray := hlevel fun js : List Json => (Json.noConfusion : Json.array js ≠ number x)
  have hobject := hlevel fun ms : List (String × Json) =>
    (Json.noConfusion : Json.object ms ≠ number x)
  have hword : ∀ {w : String} {j : Json} {s : List Char}, (∀ x, j ≠ number x) →
      word? w j s ≠ some (.number x, r) := by
    intro w j s hj h
    unfold word? at h
    split at h
    · exact hj x (Prod.mk.inj (Option.some.inj h)).1
    · cases h
  rw [readValue?] at h
  split at h
  case h_1 =>
    obtain ⟨t, -, ht⟩ := Option.map_eq_some_iff.1 h
    exact absurd (Prod.mk.inj ht).1 (hstring _)
  case h_2 =>
    split at h
    · exact absurd (Prod.mk.inj (Option.some.inj h)).1 (harray _)
    · obtain ⟨t, -, ht⟩ := Option.map_eq_some_iff.1 h
      exact absurd (Prod.mk.inj ht).1 (harray _)
  case h_3 =>
    split at h
    · exact absurd (Prod.mk.inj (Option.some.inj h)).1 (hobject _)
    · obtain ⟨t, -, ht⟩ := Option.map_eq_some_iff.1 h
      exact absurd (Prod.mk.inj ht).1 (hobject _)
  case h_4 hs =>
    obtain ⟨⟨y, t⟩, hread, ht⟩ := Option.map_eq_some_iff.1 h
    obtain ⟨hy, rfl⟩ := Prod.mk.inj ht
    rw [hs, ← Json.number.inj hy]
    exact hread
  case h_5 => exact absurd h (hword fun _ => Json.noConfusion)
  case h_6 => exact absurd h (hword fun _ => Json.noConfusion)
  case h_7 => exact absurd h (hword fun _ => Json.noConfusion)
  case h_8 hminus _ _ _ =>
    obtain ⟨⟨y, t⟩, hread, ht⟩ := Option.map_eq_some_iff.1 h
    obtain ⟨hy, rfl⟩ := Prod.mk.inj ht
    cases hs : skipSpace s with
    | nil => rw [hs] at hread; cases hread
    | cons c s' =>
      rw [hs] at hread
      rw [readSigned?_of_ne (fun hc => hminus s' (hc ▸ hs)), ← Json.number.inj hy]
      exact hread

/-! ### Numbers -/

theorem skipSpace_unspaced (hs : Unspaced s) : skipSpace s = s := by
  cases s with
  | nil => rfl
  | cons c s => exact skipSpace_cons (hs c List.mem_cons_self)

theorem readSigned?_natural {k : Nat} (hk : k ≤ wordMax) :
    readSigned? (Nat.toDigits 10 k) = some (.natural k, []) := by
  have hread := (readNumber?_toDigits false k).trans (by rw [ofParts_natural hk])
  cases hdigits : Nat.toDigits 10 k with
  | nil => exact absurd hdigits Nat.toDigits_ne_nil
  | cons c ds =>
    have hc : c.isDigit = true :=
      Nat.isDigit_of_mem_toDigits (by decide : 0 < 10) (by decide) (hdigits ▸ List.mem_cons_self)
    rw [readSigned?_of_ne (by rintro rfl; cases hc), ← hdigits, hread]

/-- A number comes back from its text if the text alone is read as the number. -/
theorem readsBack_iff {x : Binary64} {text : String} (htext : x.dataText? = some text) :
    x.ReadsBack ↔ readSigned? text.toList = some (.real x, []) := by
  have hplain := unspaced_dataText htext
  have hcompact : (Json.real x).compact = text := by simp [Json.real, compact, Num.toText, htext]
  unfold Binary64.ReadsBack read?
  rw [hcompact]
  simp only
  constructor
  · intro hx
    split at hx
    · rename_i j r hread
      split at hx
      · rename_i hrest
        obtain rfl := Option.some.inj hx
        have hsigned := readSigned?_of_readValue? hread
        rw [skipSpace_unspaced hplain] at hsigned
        have hr : Unspaced r := fun c hc => hplain c ((suffix_of_readSigned? hsigned).subset hc)
        rw [skipSpace_unspaced hr, List.isEmpty_iff] at hrest
        rwa [hrest] at hsigned
      · cases hx
    · cases hx
  · intro hsigned
    rw [readValue?_of_readSigned? hsigned]
    rfl

/-- A number that is written is read back, up to where it ends. -/
theorem readSigned?_toText {x : Num} (hx : x.Exact) (hread : x.reread = .number x) :
    readSigned? x.toText.toList = some (x, []) := by
  cases x with
  | natural k =>
    rw [Num.toText, Nat.toString_eq_ofList_toDigits, String.toList_ofList]
    exact readSigned?_natural hx
  | negative k =>
    simp only [Num.toText, Nat.toString_eq_ofList_toDigits, String.toList_append, String.toList_ofList]
    exact (readNumber?_toDigits true k).trans (by rw [ofParts_negative hx.1 hx.2])
  | real y =>
    cases hfinite : y.isFinite with
    | false => simp [Num.reread, hfinite] at hread
    | true =>
      obtain ⟨text, htext⟩ := Option.isSome_iff_exists.1 ((isSome_dataText? y).trans hfinite)
      rw [Num.toText, htext, Option.getD_some]
      exact (readsBack_iff htext).1 (hx hfinite)
  | tooLarge => cases hread

theorem readValue?_number {x : Num} (hx : x.Exact) (hr : Ends r) :
    readValue? (n + 1) room (x.toText.toList ++ r) = some (x.reread, r) := by
  by_cases hread : x.reread = .number x
  · rw [hread]
    exact readValue?_of_readSigned? (readSigned?_append (readSigned?_toText hx hread) hr)
  · obtain ⟨htext, hnull⟩ : x.toText = "null" ∧ x.reread = .null := by
      cases x with
      | natural k => exact absurd rfl hread
      | negative k => exact absurd rfl hread
      | real y =>
        cases hfinite : y.isFinite with
        | true => exact absurd (by simp [Num.reread, hfinite, Json.real]) hread
        | false =>
          have hnone : y.dataText? = none := by
            rw [← Option.not_isSome_iff_eq_none, isSome_dataText?, hfinite]
            decide
          simp [Num.toText, Num.reread, hnone, hfinite]
      | tooLarge => exact ⟨rfl, rfl⟩
    rw [htext, hnull]
    rfl

/-! ### Blanks in front -/

theorem skipSpace_skipSpace (s : List Char) : skipSpace (skipSpace s) = skipSpace s :=
  List.dropWhile_idempotent _ _

theorem readValue?_skipSpace : readValue? n room (skipSpace s) = readValue? n room s := by
  cases n with
  | zero => rfl
  | succ n => rw [readValue?, readValue?, skipSpace_skipSpace]

theorem readItems?_skipSpace : readItems? n room (skipSpace s) = readItems? n room s := by
  cases n with
  | zero => rfl
  | succ n => rw [readItems?, readItems?, readValue?_skipSpace]

theorem readMembers?_skipSpace : readMembers? n room (skipSpace s) = readMembers? n room s := by
  cases n with
  | zero => rfl
  | succ n => rw [readMembers?, readMembers?, skipSpace_skipSpace]

/-! ### Levels -/

/-- No items start with a bracket that closes them. -/
theorem readItems?_close : readItems? n room (']' :: s) = none := by
  have hvalue : ∀ n, readValue? n room (']' :: s) = none := by
    intro n
    cases n <;> rfl
  cases n with
  | zero => rfl
  | succ n => rw [readItems?, hvalue]

theorem readMembers?_close : readMembers? n room ('\x7d' :: s) = none := by
  cases n <;> rfl

theorem readValue?_array {js : List Json} (h : readItems? n (room - 1) s = some (js, r)) :
    readValue? (n + 1) room ('[' :: s) = some (ofLevel room .array (some js), r) := by
  rw [readValue?, skipSpace_cons rfl]
  simp only
  split
  · rename_i t ht
    rw [← readItems?_skipSpace, ht, readItems?_close] at h
    cases h
  · rw [readItems?_skipSpace, h]
    rfl

theorem readValue?_object {ms? : Option (List (String × Json))}
    (h : readMembers? n (room - 1) s = some (ms?, r)) :
    readValue? (n + 1) room ('\x7b' :: s) = some (ofLevel room .object ms?, r) := by
  rw [readValue?, skipSpace_cons rfl]
  simp only
  split
  · rename_i t ht
    rw [← readMembers?_skipSpace, ht, readMembers?_close] at h
    cases h
  · rw [readMembers?_skipSpace, h]
    rfl

/-! ### Items and members -/

theorem readItems?_last {j : Json} (h : readValue? n room s = some (j, ']' :: r)) :
    readItems? (n + 1) room s = some ([j], r) := by
  rw [readItems?, h]
  rfl

theorem readItems?_next {j : Json} {js : List Json} {t : List Char}
    (h : readValue? n room s = some (j, ',' :: t)) (hrest : readItems? n room t = some (js, r)) :
    readItems? (n + 1) room s = some (j :: js, r) := by
  rw [readItems?, h]
  exact congrArg (Option.map _) hrest

/-- A member is its key, a colon and its value. -/
theorem readMembers?_cons (k : String) : readMembers? (n + 1) room ((quoted k).toList ++ ':' :: s) =
    match readValue? n room s with
    | none => none
    | some (j, r) =>
      match skipSpace r with
      | ',' :: r => (readMembers? n room r).map fun p => (p.1.map ((k, j) :: ·), p.2)
      | '\x7d' :: r => some (some [(k, j)], r)
      | _ => none := by
  rw [toList_quoted, List.cons_append, List.append_assoc, readMembers?, skipSpace_cons rfl,
    List.singleton_append]
  simp only [readText?_quoted, skipSpace_cons (show isSpace ':' = false from rfl)]
  rfl

theorem readMembers?_last {k : String} {j : Json} (h : readValue? n room s = some (j, '\x7d' :: r)) :
    readMembers? (n + 1) room ((quoted k).toList ++ ':' :: s) = some (some [(k, j)], r) := by
  rw [readMembers?_cons, h]
  rfl

theorem readMembers?_next {k : String} {j : Json} {ms : List (String × Json)} {t : List Char}
    (h : readValue? n room s = some (j, ',' :: t))
    (hrest : readMembers? n room t = some (some ms, r)) :
    readMembers? (n + 1) room ((quoted k).toList ++ ':' :: s) = some (some ((k, j) :: ms), r) := by
  rw [readMembers?_cons, h]
  exact congrArg (Option.map _) hrest

/-- The value is read back from its form, given more steps than twice the characters of the form. -/
def ReadBack (j : Json) : Prop := ∀ n room r, 2 * j.compact.toList.length < n → Ends r →
  readValue? n room (j.compact.toList ++ r) = some (j.reread room, r)

theorem readItems?_compact {j : Json} {js : List Json} (hback : ∀ j' ∈ j :: js, ReadBack j')
    (hn : 2 * ([','].intercalate ((j :: js).map fun j => j.compact.toList)).length + 1 < n) :
    readItems? n room ([','].intercalate ((j :: js).map fun j => j.compact.toList) ++ ']' :: r) =
      some ((j :: js).map (reread room), r) := by
  induction js generalizing j n with
  | nil =>
    obtain ⟨n, rfl⟩ := Nat.exists_eq_add_one_of_ne_zero (by omega : n ≠ 0)
    simp only [List.map_cons, List.map_nil, List.intercalate_singleton] at hn ⊢
    exact readItems?_last (hback j List.mem_cons_self n room _ (by omega) (ends_cons (by simp)))
  | cons k js ih =>
    obtain ⟨n, rfl⟩ := Nat.exists_eq_add_one_of_ne_zero (by omega : n ≠ 0)
    have hrest := ih (j := k) (n := n) (fun j' hj' => hback j' (List.mem_cons_of_mem _ hj'))
    simp only [List.map_cons, List.intercalate_cons_cons, List.length_append, List.length_singleton]
      at hn hrest ⊢
    rw [List.append_assoc, List.append_assoc]
    exact readItems?_next
      (hback j List.mem_cons_self n room _ (by omega) (ends_cons (by simp))) (hrest (by omega))

/-- A member as it is written. -/
def memberText (m : String × Json) : List Char := (quoted m.1).toList ++ ':' :: m.2.compact.toList

theorem readMembers?_compact {m : String × Json} {ms : List (String × Json)}
    (hback : ∀ m' ∈ m :: ms, ReadBack m'.2)
    (hn : 2 * ([','].intercalate ((m :: ms).map memberText)).length + 1 < n) :
    readMembers? n room ([','].intercalate ((m :: ms).map memberText) ++ '\x7d' :: r) =
      some (some ((m :: ms).map fun m => (m.1, reread room m.2)), r) := by
  induction ms generalizing m n with
  | nil =>
    obtain ⟨n, rfl⟩ := Nat.exists_eq_add_one_of_ne_zero (by omega : n ≠ 0)
    simp only [List.map_cons, List.map_nil, List.intercalate_singleton, memberText,
      List.length_append, List.length_cons, List.append_assoc, List.cons_append] at hn ⊢
    exact readMembers?_last (hback m List.mem_cons_self n room _ (by omega) (ends_cons (by simp)))
  | cons m' ms ih =>
    obtain ⟨n, rfl⟩ := Nat.exists_eq_add_one_of_ne_zero (by omega : n ≠ 0)
    have hrest := ih (m := m') (n := n) (fun m hm => hback m (List.mem_cons_of_mem _ hm))
    simp only [List.map_cons, List.intercalate_cons_cons, List.length_append, List.length_singleton]
      at hn hrest ⊢
    have hm : (memberText m).length = (quoted m.1).toList.length + (m.2.compact.toList.length + 1) := by
      simp [memberText]
    rw [List.append_assoc, List.append_assoc, memberText, List.append_assoc, List.cons_append]
    exact readMembers?_next
      (hback m List.mem_cons_self n room _ (by omega) (ends_cons (by simp))) (hrest (by omega))

end Dispatch

/-! ### Values -/

theorem toList_compact_array (items : List Json) : (array items).compact.toList =
    '[' :: ([','].intercalate (items.map fun j => j.compact.toList) ++ [']']) := by
  have hitems : ∀ js : List Json, (compactItems js).map String.toList =
      js.map fun j => j.compact.toList := by
    intro js
    induction js with
    | nil => rfl
    | cons j js ih => rw [compactItems, List.map_cons, ih, List.map_cons]
  simp [compact, joined, String.toList_intercalate, hitems]

theorem toList_compact_object (members : List (String × Json)) : (object members).compact.toList =
    '\x7b' :: ([','].intercalate (members.map memberText) ++ ['\x7d']) := by
  have hmembers : ∀ ms : List (String × Json), (compactMembers ms).map String.toList =
      ms.map memberText := by
    intro ms
    induction ms with
    | nil => rfl
    | cons m ms ih => simp [compactMembers, ih, memberText]
  simp [compact, joined, String.toList_intercalate, hmembers]

theorem readBack_array {items : List Json} (h : ∀ j ∈ items, ReadBack j) : ReadBack (array items) := by
  intro n room r hn hr
  rw [toList_compact_array] at hn ⊢
  simp only [List.length_cons, List.length_append, List.length_nil] at hn
  obtain ⟨n, rfl⟩ := Nat.exists_eq_add_one_of_ne_zero (by omega : n ≠ 0)
  have hreread : reread room (array items) =
      ofLevel room .array (some (items.map (reread (room - 1)))) := by
    rw [reread, rereadItems_eq]
    rfl
  rw [hreread, List.cons_append, List.append_assoc]
  cases items with
  | nil => rfl
  | cons j js => exact readValue?_array (readItems?_compact h (by omega))

theorem readBack_object {members : List (String × Json)} (h : ∀ m ∈ members, ReadBack m.2) :
    ReadBack (object members) := by
  intro n room r hn hr
  rw [toList_compact_object] at hn ⊢
  simp only [List.length_cons, List.length_append, List.length_nil] at hn
  obtain ⟨n, rfl⟩ := Nat.exists_eq_add_one_of_ne_zero (by omega : n ≠ 0)
  have hreread : reread room (object members) =
      ofLevel room .object (some (members.map fun m => (m.1, reread (room - 1) m.2))) := by
    rw [reread, rereadMembers_eq]
    rfl
  rw [hreread, List.cons_append, List.append_assoc]
  cases members with
  | nil => rfl
  | cons m ms => exact readValue?_object (readMembers?_compact h (by omega))

theorem readBack_number {x : Num} (h : x.Exact) : ReadBack (number x) := by
  intro n room r hn hr
  obtain ⟨n, rfl⟩ := Nat.exists_eq_add_one_of_ne_zero (by omega : n ≠ 0)
  exact readValue?_number h hr

theorem readBack_string (s : String) : ReadBack (string s) := by
  intro n room r hn hr
  obtain ⟨n, rfl⟩ := Nat.exists_eq_add_one_of_ne_zero (by omega : n ≠ 0)
  rw [compact, toList_quoted, List.cons_append, List.append_assoc, readValue?, skipSpace_cons rfl]
  simp only [List.singleton_append, readText?_quoted]
  rfl

/-- A word is read back as what it stands for. -/
theorem readBack_word {j : Json} (h : ∀ n room r, readValue? (n + 1) room (j.compact.toList ++ r) =
    some (j.reread room, r)) : ReadBack j := by
  intro n room r hn hr
  obtain ⟨n, rfl⟩ := Nat.exists_eq_add_one_of_ne_zero (by omega : n ≠ 0)
  exact h n room r

mutual
/-- A value with exact numbers is read back from its form, whatever follows. -/
theorem readBack : ∀ j : Json, j.Exact → ReadBack j
  | null, _ => readBack_word fun _ _ _ => rfl
  | bool true, _ => readBack_word fun _ _ _ => rfl
  | bool false, _ => readBack_word fun _ _ _ => rfl
  | number _, h => readBack_number (h _ List.mem_cons_self)
  | string s, _ => readBack_string s
  | array items, h => readBack_array (readBack_items items h)
  | object members, h => readBack_object (readBack_members members h)
  | unreadable, _ => readBack_word fun _ _ _ => rfl
theorem readBack_items : ∀ js : List Json, (∀ x ∈ numbersOfItems js, x.Exact) → ∀ j ∈ js, ReadBack j
  | [], _ => fun _ hj => nomatch hj
  | j :: js, h => List.forall_mem_cons.2 ⟨readBack j fun x hx => h x (List.mem_append_left _ hx),
      readBack_items js fun x hx => h x (List.mem_append_right _ hx)⟩
theorem readBack_members : ∀ ms : List (String × Json), (∀ x ∈ numbersOfMembers ms, x.Exact) →
    ∀ m ∈ ms, ReadBack m.2
  | [], _ => fun _ hm => nomatch hm
  | m :: ms, h => List.forall_mem_cons.2 ⟨readBack m.2 fun x hx => h x (List.mem_append_left _ hx),
      readBack_members ms fun x hx => h x (List.mem_append_right _ hx)⟩
end

/-- What the compact form of a value is read as. -/
theorem read?_compact {j : Json} (h : j.Exact) :
    read? j.compact = some (j.reread 127) := by
  have hread := readBack j h (2 * j.compact.toList.length + 2) 127 [] (by omega) ends_nil
  rw [List.append_nil] at hread
  unfold read?
  simp only [hread]
  rfl

end Json
end FeatureTables
