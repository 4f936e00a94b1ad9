import FeatureTables.Number.Shortest
import FeatureTables.Proofs.Json.Token

/-!
The plain form of numbers. It is one word (`mem_plain`), and a decimal numeral exactly if the number is
finite (`isNumeral_plain`).
-/

namespace FeatureTables.Number

open Json

/-! ### Numerals -/

/-- Digits, and if there is a point, digits behind it too. -/
def isMagnitude (cs : List Char) : Bool :=
  !(cs.takeWhile Char.isDigit).isEmpty &&
    match cs.dropWhile Char.isDigit with
    | [] => true
    | c :: fraction => c == '.' && !fraction.isEmpty && fraction.all Char.isDigit

/-- A decimal numeral: a magnitude, with a minus in front of it if at all. -/
def isNumeral (s : String) : Bool :=
  match s.toList with
  | '-' :: cs => isMagnitude cs
  | cs => isMagnitude cs

section Magnitudes

variable {whole fraction cs : List Char}

theorem isMagnitude_digits (hne : cs ≠ []) (h : ∀ c ∈ cs, c.isDigit = true) :
    isMagnitude cs = true := by
  rw [isMagnitude, List.takeWhile_eq_self_iff.2 h, List.dropWhile_eq_nil_iff.2 h]
  simpa using hne

theorem isMagnitude_point (hwhole : whole ≠ []) (hfraction : fraction ≠ [])
    (h : ∀ c ∈ whole, c.isDigit = true) (h' : ∀ c ∈ fraction, c.isDigit = true) :
    isMagnitude (whole ++ '.' :: fraction) = true := by
  have htake : (whole ++ '.' :: fraction).takeWhile Char.isDigit = whole := by
    rw [List.takeWhile_append_of_pos h]
    simp
  have hdrop : (whole ++ '.' :: fraction).dropWhile Char.isDigit = '.' :: fraction := by
    rw [List.dropWhile_append_of_pos h]
    simp
  rw [isMagnitude, htake, hdrop]
  simpa [hwhole, hfraction] using h'

theorem mem_of_isMagnitude (h : isMagnitude cs = true) :
    cs ≠ [] ∧ ∀ c ∈ cs, c.isDigit = true ∨ c = '.' := by
  rw [isMagnitude, Bool.and_eq_true] at h
  obtain ⟨hwhole, hrest⟩ := h
  refine ⟨fun hnil => ?_, fun c hc => ?_⟩
  · rw [hnil] at hwhole
    cases hwhole
  · rw [← List.takeWhile_append_dropWhile (p := Char.isDigit) (l := cs)] at hc
    rcases List.mem_append.1 hc with hc | hc
    · exact Or.inl (List.mem_takeWhile_imp hc)
    · cases hdrop : cs.dropWhile Char.isDigit with
      | nil => simp [hdrop] at hc
      | cons d fraction =>
        rw [hdrop] at hc hrest
        simp only [Bool.and_eq_true, beq_iff_eq, List.all_eq_true] at hrest
        exact (List.mem_cons.1 hc).elim (fun hd => Or.inr (hd.trans hrest.1.1))
          fun hc => Or.inl (hrest.2 c hc)

theorem exists_digit_of_isMagnitude (h : isMagnitude cs = true) :
    ∃ c r, cs = c :: r ∧ c.isDigit = true := by
  rw [isMagnitude, Bool.and_eq_true] at h
  cases cs with
  | nil => cases h.1
  | cons c r =>
    refine ⟨c, r, rfl, ?_⟩
    by_contra hc
    simp [hc] at h

theorem isNumeral_minus (cs : List Char) : isNumeral ("-" ++ String.ofList cs) = isMagnitude cs := by
  simp [isNumeral]

theorem isNumeral_of_isMagnitude (h : isMagnitude cs = true) : isNumeral (String.ofList cs) = true := by
  cases cs with
  | nil => exact h
  | cons c cs =>
    have hc : c ≠ '-' := by
      rintro rfl
      simp [isMagnitude] at h
    simpa [isNumeral, hc] using h

/-- A numeral is made of digits, a point and a minus. -/
theorem mem_of_isNumeral {s : String} (h : isNumeral s = true) :
    s.toList ≠ [] ∧ ∀ c ∈ s.toList, c.isDigit = true ∨ c = '.' ∨ c = '-' := by
  unfold isNumeral at h
  split at h
  · next cs hcs =>
    rw [hcs]
    refine ⟨List.cons_ne_nil _ _, List.forall_mem_cons.2 ⟨Or.inr (Or.inr rfl), fun c hc => ?_⟩⟩
    exact ((mem_of_isMagnitude h).2 c hc).imp_right Or.inl
  · exact ⟨(mem_of_isMagnitude h).1, fun c hc => ((mem_of_isMagnitude h).2 c hc).imp_right Or.inl⟩

end Magnitudes

/-! ### Shortest digits -/

section Digits

variable {ds : List Char} {tie : Tie} {m : Nat} {e k : Int}

theorem dropZeros_eq_nil_iff : (dropZeros ds).1 = [] ↔ ∀ c ∈ ds, c = '0' := by
  fun_induction dropZeros ds with
  | case1 => simp
  | case2 ds n hrest ih => simpa [hrest] using ih
  | case3 d ds n hrest hd ih => simp [hd]
  | case4 d ds es n hne hrest ih =>
    rw [hrest] at ih
    simpa using fun _ => by simpa using mt ih.2 hne

/-- No number but zero has zeros only. -/
theorem dropZeros_toDigits {n : Nat} (hn : 0 < n) : (dropZeros (Nat.toDigits 10 n)).1 ≠ [] := by
  intro h
  have hzero := dropZeros_eq_nil_iff.1 h
  cases hds : Nat.toDigits 10 n with
  | nil => exact Nat.toDigits_ne_nil hds
  | cons c cs =>
    have hhead := head?_toDigits hn
    rw [hds] at hhead hzero
    exact hhead (congrArg some (hzero c List.mem_cons_self))

/-- Zero does not round to a number that is not zero. -/
theorem Interval.nearest?_pos (hm : 0 < m) {c : Nat} (h : (Interval.of m e).nearest? tie k = some c) :
    0 < c := by
  have hlow : 0 < (Interval.of m e).low * Nat.pow 10 (-k).toNat := by
    refine Nat.mul_pos (Nat.mul_pos ?_ (Nat.pow_pos (by decide))) (Nat.pow_pos (by decide))
    split <;> omega
  rcases Nat.eq_zero_or_pos c with rfl | hc
  · simp only [nearest?] at h
    grind
  · exact hc

/-- The digits of a number are digits; where there are none, zeros take their place. -/
theorem shortestDigits_spec (hm : 0 < m) (h : shortestDigits tie m e = (ds, k)) :
    (∀ c ∈ ds, c.isDigit = true) ∧ (ds = [] → 0 < k) := by
  simp only [shortestDigits] at h
  obtain ⟨rfl, rfl⟩ := Prod.mk.inj h
  refine ⟨fun c hc => Nat.isDigit_of_mem_toDigits (by decide) (by decide) (mem_dropZeros hc),
    fun hnil => ?_⟩
  cases hhit : (List.range 17).findSome? fun n =>
      ((Interval.of m e).nearest? tie
        (leadingExponent (Interval.of m e).mid (Interval.of m e).den - (n : Nat))).map
        fun c => (c, leadingExponent (Interval.of m e).mid (Interval.of m e).den - (n : Nat)) with
  | none => rw [Option.getD_none]; decide
  | some hit =>
    obtain ⟨n, -, hn⟩ := List.exists_of_findSome?_eq_some hhit
    obtain ⟨c, hc, rfl⟩ := Option.map_eq_some_iff.1 hn
    rw [hhit] at hnil
    exact absurd hnil (dropZeros_toDigits (Interval.nearest?_pos hm hc))

/-- Digits with their point are a numeral. -/
theorem isMagnitude_positional (h : ∀ c ∈ ds, c.isDigit = true) (hne : ds = [] → 0 < k) :
    isMagnitude (positional ds k) = true := by
  have hzeros : ∀ n, ∀ c ∈ List.replicate n '0', c.isDigit = true := by
    intro n c hc
    rw [List.eq_of_mem_replicate hc]
    rfl
  rw [positional]
  split
  · next hk =>
    refine isMagnitude_digits (fun hnil => ?_) fun c hc => ?_
    · obtain ⟨hds, hrep⟩ := List.append_eq_nil_iff.1 hnil
      have := (List.replicate_eq_nil_iff _).1 hrep
      have := hne hds
      omega
    · exact (List.mem_append.1 hc).elim (h c) (hzeros _ c)
  · next hk =>
    have hds : ds ≠ [] := fun hnil => by
      have := hne hnil
      omega
    dsimp only
    split
    · next hplaces =>
      -- the point stands between the digits
      refine isMagnitude_point (fun hnil => ?_) (fun hnil => ?_)
        (fun c hc => h c (List.mem_of_mem_take hc)) fun c hc => h c (List.mem_of_mem_drop hc)
      · have := congrArg List.length hnil
        simp at this
        omega
      · have := congrArg List.length hnil
        simp at this
        omega
    · -- zeros stand between the point and the digits
      refine isMagnitude_point (List.cons_ne_nil '0' []) (fun hnil => ?_)
        (fun c hc => hzeros 1 c hc) fun c hc => ?_
      · exact hds (List.append_eq_nil_iff.1 hnil).2
      · exact (List.mem_append.1 hc).elim (hzeros _ c) (h c)

end Digits

/-! ### The plain form -/

namespace Binary64

/-- The form of a number that is finite and not zero. -/
theorem plain_finite {s : Bool} {m : Nat} {e : Int} {h : Canonical m e} (hm : 0 < m) :
    ∃ cs, (finite s m e h).plain = signText s ++ String.ofList cs ∧ isMagnitude cs = true := by
  obtain ⟨ds, k, hds⟩ : ∃ ds k, shortestDigits .up m e = (ds, k) := ⟨_, _, rfl⟩
  obtain ⟨hdigits, hne⟩ := shortestDigits_spec hm hds
  exact ⟨positional ds k, by simp [plain, hds, Nat.pos_iff_ne_zero.1 hm],
    isMagnitude_positional hdigits hne⟩

/-- The plain form of a number is a numeral exactly if the number is finite. -/
theorem isNumeral_plain (x : Binary64) : isNumeral x.plain = x.isFinite := by
  cases x with
  | nan => rfl
  | infinite s => cases s <;> rfl
  | finite s m e h =>
    rcases Nat.eq_zero_or_pos m with rfl | hm
    · rw [plain, if_pos rfl]
      cases s <;> rfl
    · obtain ⟨cs, hplain, hcs⟩ := plain_finite (s := s) (h := h) hm
      rw [hplain]
      cases s with
      | false => simpa [signText, isFinite] using isNumeral_of_isMagnitude hcs
        | true => simpa [signText, isFinite] using (isNumeral_minus cs).trans hcs

/-- The plain form of a number is one word: it is not empty, and has digits, letters, points and
minuses only. -/
theorem mem_plain (x : Binary64) : x.plain.toList ≠ [] ∧
    ∀ c ∈ x.plain.toList, c.isAlphanum = true ∨ c = '.' ∨ c = '-' := by
  cases hx : x.isFinite with
  | true =>
    obtain ⟨hne, h⟩ := mem_of_isNumeral ((isNumeral_plain x).trans hx)
    exact ⟨hne, fun c hc => (h c hc).imp_left fun hdigit => by simp [Char.isAlphanum, hdigit]⟩
  | false =>
    have hword : ∀ s : String, (!s.toList.isEmpty && s.toList.all fun c =>
        c.isAlphanum || c == '.' || c == '-') = true →
        s.toList ≠ [] ∧ ∀ c ∈ s.toList, c.isAlphanum = true ∨ c = '.' ∨ c = '-' := by
      intro s h
      simpa [or_assoc] using h
    cases x with
    | nan => exact hword "NaN" (by decide)
    | infinite s => cases s with
      | false => exact hword "inf" (by decide)
      | true => exact hword "-inf" (by decide)
    | finite s m e h => cases hx

end Binary64
end FeatureTables.Number
