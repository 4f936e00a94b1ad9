import FeatureTables.Proofs.Number.Shortest

/-!
Numbers that are written and read again. A decimal is read as digits and an exponent (`Decimal.read?`), and
a decimal in the interval of a number is read as that number; so the plain form of each number gives it back
(`Binary64.read?_plain`).
-/

namespace FeatureTables.Number

/-! ### Digits -/

theorem decimalDigit?_of_isDigit {c : Char} (h : c.isDigit = true) :
    decimalDigit? c = some (c.toNat - 48) := by
  rw [Char.isDigit, Bool.and_eq_true, decide_eq_true_eq, decide_eq_true_eq] at h
  exact if_pos h

theorem digits?_eq {ds : List Char} (hne : ds ≠ []) (h : ∀ c ∈ ds, c.isDigit = true) :
    digits? ds = some (Nat.ofDigitChars 10 ds 0) := by
  have hfold : ∀ acc : Nat, ds.foldlM (fun acc c => (decimalDigit? c).map (acc * 10 + ·)) acc =
      some (Nat.ofDigitChars 10 ds acc) := by
    clear hne
    induction ds with
    | nil => exact fun acc => rfl
    | cons d ds ih =>
      intro acc
      obtain ⟨hd, hds⟩ := List.forall_mem_cons.1 h
      rw [List.foldlM_cons, decimalDigit?_of_isDigit hd, Nat.ofDigitChars_cons, Nat.mul_comm]
      exact ih hds _
  unfold digits?
  split
  · contradiction
  · exact hfold 0

/-- A decimal without a sign, `digits * 10 ^ exponent`. -/
structure Decimal where
  digits : Nat
  exponent : Int
deriving DecidableEq

namespace Decimal

open Binary64

def value (d : Decimal) : ℚ := d.digits * 10 ^ d.exponent

/-- The decimal of digits before and behind a point, with the exponent in the rest. -/
def ofParts? (whole fraction r : List Char) : Option Decimal :=
  if whole.isEmpty ∧ fraction.isEmpty then none
  else
    match exponent? r, digits? (whole ++ fraction) with
    | some x, some n => some ⟨n, x - fraction.length⟩
    | _, _ => none

/-- Reads digits with at most one point among them, and an exponent. -/
def read? (s : List Char) : Option Decimal :=
  let (whole, r) := leadingDigits s
  match r with
  | '.' :: r => ofParts? whole (leadingDigits r).1 (leadingDigits r).2
  | r => ofParts? whole [] r

/-- The number nearest to a decimal. -/
def nearest (negative : Bool) (d : Decimal) : Binary64 := ofDecimal negative d.digits d.exponent

/-- A number is read as the one nearest to its decimal. -/
theorem readMagnitude?_eq (negative : Bool) (s : List Char) :
    readMagnitude? negative s = (read? s).map (nearest negative) := by
  have hparts : ∀ whole fraction r, (if whole.isEmpty ∧ fraction.isEmpty then none
      else match exponent? r, digits? (whole ++ fraction) with
        | some x, some n => some (ofDecimal negative n (x - (fraction.length : Nat)))
        | _, _ => none) = (ofParts? whole fraction r).map (nearest negative) := by
    intro whole fraction r
    unfold ofParts?
    split
    · rfl
    · cases exponent? r with
      | none => rfl
      | some x =>
        cases digits? (whole ++ fraction) with
        | none => rfl
        | some n => rfl
  unfold readMagnitude? read?
  generalize leadingDigits s = p
  obtain ⟨whole, r⟩ := p
  cases r with
  | nil => exact hparts _ _ _
  | cons c r =>
    by_cases hc : c = '.'
    · subst hc
      exact hparts _ _ _
    · have hrest := hparts whole [] (c :: r)
      have hne : ∀ r', c :: r ≠ '.' :: r' := fun r' h => hc (List.cons.inj h).1
      grind

/-! ### Digits with a point -/

section Positional

variable {ds whole fraction : List Char} {k : Int}

theorem read?_digits (hne : ds ≠ []) (h : ∀ c ∈ ds, c.isDigit = true) :
    read? ds = some ⟨Nat.ofDigitChars 10 ds 0, 0⟩ := by
  have htake := List.takeWhile_eq_self_iff.2 h
  have hdrop := List.dropWhile_eq_nil_iff.2 h
  simp [read?, ofParts?, leadingDigits, htake, hdrop, hne, exponent?, digits?_eq hne h]

theorem read?_point (hwhole : whole ≠ []) (h : ∀ c ∈ whole, c.isDigit = true)
    (h' : ∀ c ∈ fraction, c.isDigit = true) : read? (whole ++ '.' :: fraction) =
      some ⟨Nat.ofDigitChars 10 (whole ++ fraction) 0, -fraction.length⟩ := by
  have htake : (whole ++ '.' :: fraction).takeWhile Char.isDigit = whole := by
    rw [List.takeWhile_append_of_pos h]
    simp
  have hdrop : (whole ++ '.' :: fraction).dropWhile Char.isDigit = '.' :: fraction := by
    rw [List.dropWhile_append_of_pos h]
    simp
  have hall : ∀ c ∈ whole ++ fraction, c.isDigit = true := fun c hc =>
    (List.mem_append.1 hc).elim (h c) (h' c)
  have hdigits := digits?_eq (List.append_ne_nil_of_left_ne_nil hwhole fraction) hall
  have htake' := List.takeWhile_eq_self_iff.2 h'
  have hdrop' := List.dropWhile_eq_nil_iff.2 h'
  simp [read?, ofParts?, leadingDigits, htake, hdrop, htake', hdrop', hwhole, exponent?, hdigits]

/-- Digits with their point are read as the decimal that they stand for. -/
theorem read?_positional (hne : ds ≠ []) (h : ∀ c ∈ ds, c.isDigit = true) (k : Int) :
    ∃ d, read? (positional ds k) = some d ∧ d.value = Nat.ofDigitChars 10 ds 0 * 10 ^ k := by
  have hzeros : ∀ n, ∀ c ∈ List.replicate n '0', c.isDigit = true := by
    intro n c hc
    rw [List.eq_of_mem_replicate hc]
    rfl
  rw [positional]
  split
  · next hk =>
    refine ⟨_, read?_digits (List.append_ne_nil_of_left_ne_nil hne _) fun c hc =>
      (List.mem_append.1 hc).elim (h c) (hzeros _ c), ?_⟩
    obtain ⟨n, rfl⟩ := Int.eq_ofNat_of_zero_le hk
    rw [value, Nat.ofDigitChars_append, Nat.ofDigitChars_replicate_zero, Int.toNat_natCast, zpow_natCast]
    push_cast
    ring
  · next hk =>
    dsimp only
    split
    · next hplaces =>
      refine ⟨_, read?_point (fun hnil => ?_) (fun c hc => h c (List.mem_of_mem_take hc))
        fun c hc => h c (List.mem_of_mem_drop hc), ?_⟩
      · have := congrArg List.length hnil
        simp at this
        omega
      · rw [value, List.take_append_drop, List.length_drop,
          show -((ds.length - (ds.length - (-k).toNat) : Nat) : Int) = k by omega]
    · next hplaces =>
      refine ⟨_, read?_point (List.cons_ne_nil '0' []) (fun c hc => hzeros 1 c hc)
        fun c hc => (List.mem_append.1 hc).elim (hzeros _ c) (h c), ?_⟩
      have hdigits : Nat.ofDigitChars 10
          (['0'] ++ (List.replicate ((-k).toNat - ds.length) '0' ++ ds)) 0 = Nat.ofDigitChars 10 ds 0 := by
        rw [← List.append_assoc, Nat.ofDigitChars_append, Nat.ofDigitChars_append,
          Nat.ofDigitChars_replicate_zero]
        rfl
      have hlength : -((List.replicate ((-k).toNat - ds.length) '0' ++ ds).length : Int) = k := by
        rw [List.length_append, List.length_replicate]
        omega
      exact congrArg₂ (fun (n : Nat) (x : Int) => (n * 10 ^ x : ℚ)) hdigits hlength

end Positional

/-! ### Decimals in an interval -/

section Nearest

variable {d : Decimal} {m : Nat} {e : Int}

theorem pow_two_le_pow_ten : 2 ^ 1075 ≤ 10 ^ 330 := by decide +kernel

theorem pow_two_lt_pow_ten : 2 ^ 1024 < 10 ^ 309 := by decide +kernel

/-- What rounds to a number is between powers of ten that no number is beyond. -/
theorem bounds_of_contains (h : Canonical m e) (hm : 0 < m) {v : ℚ} (hv : (Interval.of m e).Contains v) :
    (10 : ℚ) ^ (-330 : Int) ≤ v ∧ v < (10 : ℚ) ^ (309 : Int) := by
  obtain ⟨hwidth, hleast, hmost, -⟩ := h
  obtain ⟨hlow, hhigh, -⟩ := (contains_of_iff hm).1 hv
  have hm₁ : (1 : ℚ) ≤ m := by exact_mod_cast hm
  have hm₂ : (m : ℚ) + 1 ≤ 2 ^ 53 := by exact_mod_cast hwidth
  have hpow : (0 : ℚ) < 2 ^ e := zpow_pos (by norm_num) e
  have hhalf : (1 / 2 : ℚ) ≤ v / 2 ^ e := by
    rcases below_eq_or m e with ⟨-, -, hbelow⟩ | hbelow
    · linarith
    · linarith
  constructor
  · calc (10 : ℚ) ^ (-330 : Int) ≤ 2 ^ (-1075 : Int) := by
          rw [show (-330 : Int) = -(330 : Nat) from rfl, show (-1075 : Int) = -(1075 : Nat) from rfl,
            zpow_neg, zpow_neg, zpow_natCast, zpow_natCast]
          exact inv_anti₀ (by positivity) (by exact_mod_cast pow_two_le_pow_ten)
      _ = 1 / 2 * 2 ^ (-1074 : Int) := by
        rw [show (-1075 : Int) = -1 + -1074 from rfl, zpow_add₀ (by norm_num)]
        norm_num
      _ ≤ 1 / 2 * 2 ^ e := by
        refine mul_le_mul_of_nonneg_left (zpow_le_zpow_right₀ (by norm_num) hleast) (by norm_num)
      _ ≤ v := (le_div_iff₀ hpow).1 hhalf
  · calc v ≤ (m + 1 / 2) * 2 ^ e := (div_le_iff₀ hpow).1 hhigh
      _ ≤ 2 ^ 53 * 2 ^ (971 : Int) :=
        mul_le_mul (by linarith) (zpow_le_zpow_right₀ (by norm_num) hmost) hpow.le (by norm_num)
      _ = 2 ^ (1024 : Nat) := by
        rw [show (971 : Int) = (971 : Nat) from rfl, zpow_natCast, ← pow_add]
      _ < (10 : ℚ) ^ (309 : Int) := by
        rw [show (309 : Int) = (309 : Nat) from rfl, zpow_natCast]
        exact_mod_cast pow_two_lt_pow_ten

/-- A decimal in the interval of a number is read as the number. -/
theorem nearest_of_contains (h : Canonical m e) (hm : 0 < m) (hd : (Interval.of m e).Contains d.value)
    (negative : Bool) : d.nearest negative = .finite negative m e h := by
  obtain ⟨hlow, hhigh⟩ := bounds_of_contains h hm hd
  obtain ⟨n, k⟩ := d
  rw [value] at hlow hhigh
  dsimp only at hlow hhigh
  have hten : (0 : ℚ) < 10 ^ k := zpow_pos (by norm_num) k
  have hn : 0 < n := by
    by_contra hzero
    rw [Nat.eq_zero_of_not_pos hzero, Nat.cast_zero, zero_mul] at hlow
    exact absurd hlow (by norm_num)
  have hlength := decimalLength_pos n
  have hpow : (10 : ℚ) ^ ((decimalLength n : Int) - 1) ≤ n := by
    rw [show (decimalLength n : Int) - 1 = ((decimalLength n - 1 : Nat) : Int) by omega, zpow_natCast]
    exact_mod_cast pow_decimalLength_le hn
  have hpow' : (n : ℚ) < (10 : ℚ) ^ (decimalLength n : Int) := by
    rw [zpow_natCast]
    exact_mod_cast lt_pow_decimalLength n
  have hmost : ¬ 310 < (decimalLength n : Int) + k := by
    intro hlt
    refine absurd hhigh (not_lt.2 ?_)
    calc (10 : ℚ) ^ (309 : Int) ≤ 10 ^ ((decimalLength n : Int) - 1 + k) :=
          zpow_le_zpow_right₀ (by norm_num) (by omega)
      _ = 10 ^ ((decimalLength n : Int) - 1) * 10 ^ k := zpow_add₀ (by norm_num) _ _
      _ ≤ n * 10 ^ k := mul_le_mul_of_nonneg_right hpow hten.le
  have hleast : ¬ (decimalLength n : Int) + k < -330 := by
    intro hlt
    refine absurd hlow (not_le.2 ?_)
    calc (n : ℚ) * 10 ^ k < 10 ^ (decimalLength n : Int) * 10 ^ k := mul_lt_mul_of_pos_right hpow' hten
      _ = 10 ^ ((decimalLength n : Int) + k) := (zpow_add₀ (by norm_num) _ _).symm
      _ ≤ (10 : ℚ) ^ (-330 : Int) := zpow_le_zpow_right₀ (by norm_num) (by omega)
  rw [nearest, ofDecimal, if_neg (Nat.pos_iff_ne_zero.1 hn)]
  dsimp only
  rw [if_neg hmost, if_neg hleast]
  split
  · next hk =>
    refine ofRatio_of_contains h hm Nat.one_pos (cast (congrArg _ ?_) hd) negative
    rw [value, zpow_eq_div (by norm_num), show (-k).toNat = 0 by omega, Nat.pow_eq]
    push_cast
    rw [pow_zero, div_one, div_one]
  · next hk =>
    refine ofRatio_of_contains h hm (Nat.pow_pos (by decide)) (cast (congrArg _ ?_) hd) negative
    rw [value, zpow_eq_div (by norm_num), show k.toNat = 0 by omega]
    push_cast
    rw [pow_zero, mul_one_div]

end Nearest

end Decimal

/-! ### The plain form -/

namespace Binary64

/-- The plain form of a finite number is its sign and a decimal that is read as the number. -/
theorem plain_reads {s : Bool} {m : Nat} {e : Int} (h : Canonical m e) : ∃ cs d,
    (finite s m e h).plain = signText s ++ String.ofList cs ∧ isMagnitude cs = true ∧
      Decimal.read? cs = some d ∧ d.nearest s = finite s m e h := by
  rcases Nat.eq_zero_or_pos m with rfl | hm
  · refine ⟨['0'], ⟨0, 0⟩, ?_, rfl, rfl, ?_⟩
    · rw [plain, if_pos rfl]
    · have he : e = -1074 := h.2.2.2.resolve_left (by decide)
      subst he
      rfl
  · obtain ⟨ds, k, hds⟩ : ∃ ds k, shortestDigits .up m e = (ds, k) := ⟨_, _, rfl⟩
    obtain ⟨hne, hdigits, hcontains⟩ := shortestDigits_contains h hm hds
    obtain ⟨d, hd, hvalue⟩ := Decimal.read?_positional hne hdigits k
    refine ⟨positional ds k, d, ?_, ?_, hd, Decimal.nearest_of_contains h hm (hvalue ▸ hcontains) s⟩
    · simp [plain, hds, Nat.pos_iff_ne_zero.1 hm]
    · exact isMagnitude_positional hdigits fun hnil => absurd hnil hne

theorem toLower_of_isDigit {c : Char} (h : c.isDigit = true) : c.toLower = c := by
  rw [Char.isDigit, Bool.and_eq_true, decide_eq_true_eq, decide_eq_true_eq] at h
  unfold Char.toLower
  rw [dif_neg]
  rintro ⟨hlow, -⟩
  exact absurd (UInt32.le_trans hlow h.2) (by decide)

/-- What begins with a digit is no word. -/
theorem read?_magnitude {s : Bool} {cs : List Char} (h : isMagnitude cs = true) :
    read? (signText s ++ String.ofList cs) = readMagnitude? s cs := by
  obtain ⟨c, r, rfl, hc⟩ := exists_digit_of_isMagnitude h
  have hsign : sign (signText s ++ String.ofList (c :: r)).toList = (s, c :: r) := by
    cases s with
    | true => simp [signText, sign]
    | false =>
      have hminus : c ≠ '-' := fun hc' => by rw [hc'] at hc; cases hc
      have hplus : c ≠ '+' := fun hc' => by rw [hc'] at hc; cases hc
      simp [signText, sign, hminus, hplus]
  have hword : ∀ (w : String) (d : Char), w.toList.head? = some d → d.isDigit = false →
      String.ofList ((c :: r).map Char.toLower) ≠ w := by
    rintro w d hw hd rfl
    rw [String.toList_ofList, List.map_cons, List.head?_cons, toLower_of_isDigit hc] at hw
    obtain rfl := Option.some.inj hw
    rw [hc] at hd
    cases hd
  rw [read?, hsign]
  dsimp only
  rw [if_neg (not_or.2 ⟨hword "inf" 'i' rfl rfl, hword "infinity" 'i' rfl rfl⟩),
    if_neg (hword "nan" 'n' rfl rfl)]

/-- The plain form of each number is read as the number again. -/
theorem read?_plain (x : Binary64) : read? x.plain = some x := by
  cases x with
  | nan => decide +kernel
  | infinite s => cases s with
    | false => decide +kernel
    | true => decide +kernel
  | finite s m e h =>
    obtain ⟨cs, d, hplain, hcs, hd, hnearest⟩ := plain_reads (s := s) h
    rw [hplain, read?_magnitude hcs, Decimal.readMagnitude?_eq, hd, Option.map_some, hnearest]

end Binary64

end FeatureTables.Number
