import FeatureTables.Text.Utf8
import Mathlib.Tactic.Common

/-!
Texts come back from their bytes. The bytes of a character start with one that tells how many follow
(`lead?_eq`), each of which carries six bits (`continuation_tail`); so the characters are read one by
one (`units_char`).
-/

namespace FeatureTables.Text

/-! ### Bytes of a text -/

theorem utf8_ofList (cs : List Char) : utf8 (String.ofList cs) = cs.flatMap String.utf8EncodeChar := by
  simp [utf8, List.utf8Encode]

theorem utf8_eq (s : String) : utf8 s = s.toList.flatMap String.utf8EncodeChar := by
  rw [← utf8_ofList, String.ofList_toList]

theorem utf8_append (s t : String) : utf8 (s ++ t) = utf8 s ++ utf8 t := by
  simp [utf8_eq]

/-! ### Reading one character -/

/-! What a first byte with the upper bits `q` says; the range of the next one leaves out what a shorter
form or no form stands for. -/

theorem lead?_one : ∀ q < 128, lead? (UInt8.ofNat q) = some (0, 0x80, 0xBF, q) := by decide

theorem lead?_two : ∀ q < 32, q < 2 ∨ lead? (UInt8.ofNat (q + 192)) = some (1, 0x80, 0xBF, q) := by
  decide

theorem lead?_three : ∀ q < 16, lead? (UInt8.ofNat (q + 224)) =
    some (2, UInt8.ofNat (if q = 0 then 160 else 128), UInt8.ofNat (if q = 13 then 159 else 191), q) := by
  decide

theorem lead?_four : ∀ q < 5, lead? (UInt8.ofNat (q + 240)) =
    some (3, UInt8.ofNat (if q = 0 then 144 else 128), UInt8.ofNat (if q = 4 then 143 else 191), q) := by
  decide

section Continuation

variable {n acc : Nat} {low high : UInt8} {bs : Bytes}

/-- A byte within the range is taken for its six bits. -/
theorem continuation_next {l h : Nat} (v : Nat) (hh : h < 256) (hl : l ≤ v % 64 + 128)
    (hv : v % 64 + 128 ≤ h) :
    continuation (n + 1) (UInt8.ofNat l) (UInt8.ofNat h) acc (UInt8.ofNat (v % 64 + 128) :: bs) =
      continuation n 0x80 0xBF (acc * 64 + v % 64) bs := by
  have htoNat : ∀ k < 256, (UInt8.ofNat k).toNat = k := fun k hk => Nat.mod_eq_of_lt hk
  rw [continuation, if_pos (by
    simp only [UInt8.le_iff_toNat_le, htoNat l (by omega), htoNat h hh,
      htoNat _ (by omega : v % 64 + 128 < 256)]
    exact ⟨hl, hv⟩), htoNat _ (by omega), Nat.add_sub_cancel]

theorem continuation_tail (v : Nat) :
    continuation (n + 1) 0x80 0xBF acc (UInt8.ofNat (v % 64 + 128) :: bs) =
      continuation n 0x80 0xBF (acc * 64 + v % 64) bs :=
  continuation_next v (h := 191) (by decide) (Nat.le_add_left ..) (by omega)

theorem units_of_lead {b : UInt8} {r : Bytes} {v : Nat} (hlead : lead? b = some (n, low, high, acc))
    (hrest : continuation n low high acc r = (some v, bs)) :
    units (b :: r) = some (Char.ofNat v) :: units bs := by
  rw [units, hlead]
  simp only [hrest, Option.map_some]

end Continuation

/-- The bytes of a character are read as it. -/
theorem units_char (c : Char) (bs : Bytes) :
    units (String.utf8EncodeChar c ++ bs) = some c :: units bs := by
  have hvalid := c.valid
  have hc : Char.ofNat c.val.toNat = c := Char.ofNat_toNat c
  rw [String.utf8EncodeChar]
  generalize hv : c.val.toNat = v at hc
  have hrange : v < 0xD800 ∨ 0xDFFF < v ∧ v < 0x110000 := by
    simpa [UInt32.isValidChar, Nat.isValidChar, hv] using hvalid
  rw [← hc]
  have hdone : ∀ w, w = v → continuation 0 0x80 0xBF w bs = (some v, bs) := fun w hw => by
    rw [continuation, hw]
  by_cases h1 : v ≤ 127
  · rw [if_pos h1]
    exact units_of_lead (lead?_one v (by omega)) (hdone v rfl)
  rw [if_neg h1]
  by_cases h2 : v ≤ 2047
  · rw [if_pos h2]
    refine units_of_lead ((lead?_two _ (by omega)).resolve_left (by omega)) ?_
    exact (continuation_tail v).trans (hdone _ (by omega))
  rw [if_neg h2]
  by_cases h3 : v ≤ 65535
  · rw [if_pos h3]
    refine units_of_lead (lead?_three _ (by omega)) ?_
    have hlow : (if v / 4096 % 16 = 0 then 160 else 128) ≤ v / 64 % 64 + 128 := by
      split <;> omega
    have hhigh : v / 64 % 64 + 128 ≤ if v / 4096 % 16 = 13 then 159 else 191 := by
      split <;> omega
    exact (continuation_next _ (by split <;> omega) hlow hhigh).trans
      ((continuation_tail v).trans (hdone _ (by omega)))
  · rw [if_neg h3, Nat.mod_eq_of_lt (by omega : v / 262144 < 8)]
    refine units_of_lead (lead?_four _ (by omega)) ?_
    have hlow : (if v / 262144 = 0 then 144 else 128) ≤ v / 4096 % 64 + 128 := by
      split <;> omega
    have hhigh : v / 4096 % 64 + 128 ≤ if v / 262144 = 4 then 143 else 191 := by
      split <;> omega
    exact (continuation_next _ (by split <;> omega) hlow hhigh).trans
      ((continuation_tail (v / 64)).trans ((continuation_tail v).trans (hdone _ (by omega))))

/-! ### Reading a text -/

theorem units_utf8 (cs : List Char) (bs : Bytes) :
    units (cs.flatMap String.utf8EncodeChar ++ bs) = cs.map some ++ units bs := by
  induction cs with
  | nil => rfl
  | cons c cs ih => rw [List.flatMap_cons, List.append_assoc, units_char, ih]; rfl

/-- A text comes back from its bytes. -/
theorem fromUtf8?_utf8 (s : String) : fromUtf8? (utf8 s) = some s := by
  have hunits : units (utf8 s) = s.toList.map some := by
    rw [utf8_eq, ← List.append_nil (List.flatMap ..), units_utf8, units, List.append_nil]
  have hall : ∀ cs : List Char, (cs.map some).mapM id = some cs := fun cs => by
    induction cs with
    | nil => rfl
    | cons c cs ih => simp [List.mapM_cons, ih]
  rw [fromUtf8?, hunits, hall, Option.map_some, String.ofList_toList]

/-- Only an ASCII character itself has its byte. -/
theorem eq_of_byte_mem_utf8EncodeChar {a c : Char} (ha : a.toNat < 128)
    (h : byte a ∈ String.utf8EncodeChar c) : c = a := by
  have hc : Char.ofNat c.val.toNat = c := Char.ofNat_toNat c
  have hbyte : (byte a).toNat = a.toNat := Nat.mod_eq_of_lt (by omega)
  rw [String.utf8EncodeChar] at h
  generalize c.val.toNat = v at hc h
  have hlow : v ≤ 127 := by
    by_contra hv
    rw [if_neg hv] at h
    split_ifs at h <;>
      simp only [List.mem_cons, List.not_mem_nil, or_false, ← UInt8.toNat_inj, UInt8.toNat_ofNat',
        hbyte] at h <;>
      omega
  rw [if_pos hlow, List.mem_singleton, ← UInt8.toNat_inj, UInt8.toNat_ofNat',
    Nat.mod_eq_of_lt (by omega), hbyte] at h
  rw [← hc, ← h]
  exact Char.ofNat_toNat a

theorem byte_not_mem_utf8 {a : Char} {s : String} (ha : a.toNat < 128) (h : a ∉ s.toList) :
    byte a ∉ utf8 s := by
  rw [utf8_eq, List.mem_flatMap]
  rintro ⟨c, hc, hbyte⟩
  exact h (eq_of_byte_mem_utf8EncodeChar ha hbyte ▸ hc)

theorem newline_not_mem_utf8 {s : String} (h : '\n' ∉ s.toList) : (10 : UInt8) ∉ utf8 s :=
  byte_not_mem_utf8 (by decide) h

/-- No two texts have the same bytes. -/
theorem utf8_injective {s t : String} (h : utf8 s = utf8 t) : s = t := by
  have hread := fromUtf8?_utf8 s
  rw [h, fromUtf8?_utf8] at hread
  exact (Option.some.inj hread).symm

theorem units_eq_nil_iff {bs : Bytes} : units bs = [] ↔ bs = [] := by
  constructor
  · intro h
    cases bs with
    | nil => rfl
    | cons b r =>
      rw [units] at h
      split at h <;> cases h
  · rintro rfl
    rw [units]

theorem fromUtf8?_eq_empty_iff {bs : Bytes} {s : String} (h : fromUtf8? bs = some s) :
    s = "" ↔ bs = [] := by
  obtain ⟨cs, hcs, rfl⟩ := Option.map_eq_some_iff.1 h
  rw [← units_eq_nil_iff, ← String.toList_eq_nil_iff, String.toList_ofList]
  cases hunits : units bs with
  | nil =>
    rw [hunits] at hcs
    cases hcs
    simp
  | cons u us =>
    rw [hunits, List.mapM_cons] at hcs
    simp only [id, Option.bind_eq_bind, Option.bind_eq_some_iff] at hcs
    obtain ⟨c, -, ds, -, hcs⟩ := hcs
    obtain rfl := Option.some.inj hcs
    simp

/-- Where the bytes are a text, the lenient reading gives it. -/
theorem fromUtf8Lossy_of_fromUtf8? {bs : Bytes} {s : String} (h : fromUtf8? bs = some s) :
    fromUtf8Lossy bs = s := by
  obtain ⟨cs, hcs, rfl⟩ := Option.map_eq_some_iff.1 h
  have hall : ∀ (us : List (Option Char)) (cs : List Char), us.mapM id = some cs →
      us.map (fun u => u.getD '\ufffd') = cs := by
    intro us
    induction us with
    | nil =>
      intro cs hcs
      cases hcs
      rfl
    | cons u us ih =>
      intro cs hcs
      simp only [List.mapM_cons, id, Option.bind_eq_bind, Option.bind_eq_some_iff] at hcs
      obtain ⟨c, rfl, ds, hds, hcs⟩ := hcs
      obtain rfl := Option.some.inj hcs
      rw [List.map_cons, ih ds hds]
      rfl
  exact congrArg String.ofList (hall _ cs hcs)

end FeatureTables.Text
