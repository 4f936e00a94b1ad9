import FeatureTables.Proofs.Number.Plain
import FeatureTables.Proofs.Number.Rounding

/-!
The digits of a number lie in its interval (`shortestDigits_contains`). Decimals of seventeen digits are
closer to each other than the interval is wide, so one of the two around the number is always inside of it.
-/

namespace FeatureTables.Number

/-! ### Lengths -/

namespace Binary64

theorem lt_pow_decimalLength (n : Nat) : n < 10 ^ decimalLength n :=
  (Nat.length_toDigits_le_iff (by decide) Nat.length_toDigits_pos).1 (Nat.le_refl _)

theorem pow_decimalLength_le {n : Nat} (hn : 0 < n) : 10 ^ (decimalLength n - 1) ≤ n := by
  by_contra hlt
  rcases Nat.eq_zero_or_pos (decimalLength n - 1) with hzero | hpos
  · rw [hzero] at hlt
    omega
  · have hle := (Nat.length_toDigits_le_iff (by decide) hpos).2 (Nat.not_le.1 hlt)
    rw [← decimalLength] at hle
    omega

theorem decimalLength_pos (n : Nat) : 0 < decimalLength n := Nat.length_toDigits_pos

end Binary64

open Binary64

/-- A quotient is not below the power of its first digit. -/
theorem pow_leadingExponent_le {num den : Nat} (hnum : 0 < num) (hden : 0 < den) :
    (10 : ℚ) ^ leadingExponent num den ≤ num / den := by
  have hnum' : (0 : ℚ) < num := by exact_mod_cast hnum
  have hden' : (0 : ℚ) < den := by exact_mod_cast hden
  unfold leadingExponent
  split
  · next hle =>
    have hpos := decimalLength_pos (num / den)
    have hpow := pow_decimalLength_le (Nat.div_pos hle hden)
    rw [Nat.le_div_iff_mul_le hden] at hpow
    rw [le_div_iff₀ hden', show (decimalLength (num / den) : Int) - 1 =
      ((decimalLength (num / den) - 1 : Nat) : Int) by omega, zpow_natCast]
    exact_mod_cast hpow
  · next hlt =>
    dsimp only
    split
    · next heq =>
      have hpos := decimalLength_pos (den / num)
      rw [show -((decimalLength (den / num) : Int) - 1) = -((decimalLength (den / num) - 1 : Nat) : Int) by
        omega, zpow_neg, zpow_natCast, inv_le_comm₀ (by positivity) (by positivity), inv_div,
        div_le_iff₀ hnum']
      rw [Nat.pow_eq, mul_comm] at heq
      exact_mod_cast heq.ge
    · have hlt' := lt_pow_decimalLength (den / num)
      rw [Nat.div_lt_iff_lt_mul hnum] at hlt'
      rw [zpow_neg, zpow_natCast, inv_le_comm₀ (by positivity) (by positivity), inv_div,
        div_le_iff₀ hnum']
      exact_mod_cast hlt'.le

/-! ### Decimals in an interval -/

namespace Interval

variable {i : Interval} {tie : Tie} {k : Int} {c : Nat}

/-- The decimal `c * 10 ^ k` is inside. -/
def hasDecimal (i : Interval) (k : Int) (c : Nat) : Bool :=
  let grow := Nat.pow 10 (-k).toNat
  let unit := i.den * Nat.pow 10 k.toNat
  if i.closed then i.low * grow ≤ c * unit ∧ c * unit ≤ i.high * grow
  else i.low * grow < c * unit ∧ c * unit < i.high * grow

theorem hasDecimal_iff : i.hasDecimal k c = true ↔ i.Contains (c * 10 ^ k) := by
  have hgrow : (0 : ℚ) < 10 ^ (-k).toNat := by positivity
  have hscale : (c * 10 ^ k : ℚ) * i.den = c * (i.den * 10 ^ k.toNat) / 10 ^ (-k).toNat := by
    rw [zpow_eq_div (by norm_num) k]
    ring
  have hle : ∀ x : Nat, x * 10 ^ (-k).toNat ≤ c * (i.den * 10 ^ k.toNat) ↔
      (x : ℚ) ≤ c * 10 ^ k * i.den := by
    intro x
    rw [hscale, le_div_iff₀ hgrow]
    exact_mod_cast Iff.rfl
  have hge : ∀ x : Nat, c * (i.den * 10 ^ k.toNat) ≤ x * 10 ^ (-k).toNat ↔
      (c * 10 ^ k * i.den : ℚ) ≤ x := by
    intro x
    rw [hscale, div_le_iff₀ hgrow]
    exact_mod_cast Iff.rfl
  have hlt : ∀ x : Nat, x * 10 ^ (-k).toNat < c * (i.den * 10 ^ k.toNat) ↔
      (x : ℚ) < c * 10 ^ k * i.den := fun x => by
    rw [← not_le, ← not_le, hge]
  have hgt : ∀ x : Nat, c * (i.den * 10 ^ k.toNat) < x * 10 ^ (-k).toNat ↔
      (c * 10 ^ k * i.den : ℚ) < x := fun x => by
    rw [← not_le, ← not_le, hle]
  simp only [hasDecimal, Nat.pow_eq, hle, hge, hlt, hgt]
  cases hclosed : i.closed with
  | true =>
    rw [if_pos rfl, decide_eq_true_eq]
    exact ⟨fun ⟨h₁, h₂⟩ => ⟨h₁, h₂, by simp [hclosed]⟩, fun h => ⟨h.low, h.high⟩⟩
  | false =>
    rw [if_neg Bool.false_ne_true, decide_eq_true_eq]
    exact ⟨fun ⟨h₁, h₂⟩ => ⟨h₁.le, h₂.le, fun _ => ⟨h₁, h₂⟩⟩, fun h => h.strict hclosed⟩

/-- The last decimal up to the middle. -/
def down (i : Interval) (k : Int) : Nat :=
  i.mid * Nat.pow 10 (-k).toNat / (i.den * Nat.pow 10 k.toNat)

/-- A decimal is found if one of the two around the middle is inside, and it is inside itself. -/
theorem nearest?_cases (i : Interval) (tie : Tie) (k : Int) :
    (∃ c, i.nearest? tie k = some c ∧ i.hasDecimal k c = true) ∨
      i.nearest? tie k = none ∧ i.hasDecimal k (i.down k) = false ∧
        i.hasDecimal k (i.down k + 1) = false := by
  generalize hfound : i.nearest? tie k = found
  unfold Interval.nearest? at hfound
  extract_lets grow unit inside down twice middle at hfound
  have hinside (c : Nat) : i.hasDecimal k c = inside c := rfl
  have hlow : i.down k = down := rfl
  simp only [hinside, hlow]
  cases hdown : inside down with
  | true =>
    cases hup : inside (down + 1) with
    | true =>
      rw [hdown, hup] at hfound
      subst hfound
      refine Or.inl ?_
      dsimp only
      split
      · exact ⟨_, rfl, hdown⟩
      · split
        · exact ⟨_, rfl, hup⟩
        · cases tie with
          | up => exact ⟨_, rfl, hup⟩
          | toEven =>
            refine ⟨_, rfl, ?_⟩
            split
            · exact hdown
            · exact hup
    | false =>
      rw [hdown, hup] at hfound
      exact Or.inl ⟨_, hfound.symm, hdown⟩
  | false =>
    cases hup : inside (down + 1) with
    | true =>
      rw [hdown, hup] at hfound
      exact Or.inl ⟨_, hfound.symm, hup⟩
    | false =>
      rw [hdown, hup] at hfound
      exact Or.inr ⟨hfound.symm, rfl, rfl⟩

theorem contains_of_nearest? (h : i.nearest? tie k = some c) : i.Contains (c * 10 ^ k) := by
  rcases i.nearest?_cases tie k with ⟨c', hc', hmem⟩ | ⟨hnone, -, -⟩
  · obtain rfl := Option.some.inj (hc'.symm.trans h)
    exact hasDecimal_iff.1 hmem
  · rw [hnone] at h
    cases h

/-- The middle is between two decimals. -/
theorem down_bounds (hden : 0 < i.den) (k : Int) : (i.down k * 10 ^ k : ℚ) ≤ i.mid / i.den ∧
    (i.mid / i.den : ℚ) < (i.down k + 1) * 10 ^ k := by
  have hden' : (0 : ℚ) < i.den := by exact_mod_cast hden
  have hunit : 0 < i.den * 10 ^ k.toNat := Nat.mul_pos hden (Nat.pow_pos (by decide))
  have hgrow : (0 : ℚ) < 10 ^ (-k).toNat := by positivity
  have hle : i.down k * (i.den * 10 ^ k.toNat) ≤ i.mid * 10 ^ (-k).toNat := Nat.div_mul_le_self _ _
  have hlt : i.mid * 10 ^ (-k).toNat < (i.down k + 1) * (i.den * 10 ^ k.toNat) := by
    rw [← Nat.div_lt_iff_lt_mul hunit]
    exact Nat.lt_succ_self _
  have hle' : (i.down k * (i.den * 10 ^ k.toNat) : ℚ) ≤ i.mid * 10 ^ (-k).toNat := by exact_mod_cast hle
  have hlt' : (i.mid * 10 ^ (-k).toNat : ℚ) < (i.down k + 1) * (i.den * 10 ^ k.toNat) := by
    exact_mod_cast hlt
  rw [zpow_eq_div (by norm_num) k, mul_div_assoc', mul_div_assoc', div_le_div_iff₀ hgrow hden',
    div_lt_div_iff₀ hden' hgrow]
  exact ⟨by linarith, by linarith⟩

end Interval

/-! ### Seventeen digits -/

section Digits

variable {m : Nat} {e k : Int} {tie : Tie} {ds : List Char}

theorem mid_div_den (m : Nat) (e : Int) :
    ((Interval.of m e).mid / (Interval.of m e).den : ℚ) = m * 2 ^ e := by
  simp only [Interval.of, Nat.pow_eq]
  push_cast
  rw [zpow_eq_four_mul]
  ring

/-- Of two neighbours around a number one is close enough, if they are close to each other. -/
theorem close_of_step {x w : ℚ} (h : Canonical m e) (hlt : m < x + w) (hw : w * 10 ^ 16 ≤ m) :
    m - below m e < x ∨ x + w < m + 1 / 2 := by
  obtain ⟨hwidth, -, -, -⟩ := h
  have hm : (m : ℚ) < 2 ^ 53 := by exact_mod_cast hwidth
  by_contra hfar
  rw [not_or, not_lt, not_lt] at hfar
  rcases below_eq_or m e with ⟨hm, -, hbelow⟩ | hbelow
  · have hm : (m : ℚ) = 2 ^ 52 := by exact_mod_cast hm
    linarith
  · linarith

/-- The decimal of seventeen digits next to a number is close enough. -/
theorem nearest?_seventeen (h : Canonical m e) (hm : 0 < m) (tie : Tie) : ∃ c,
    (Interval.of m e).nearest? tie
      (leadingExponent (Interval.of m e).mid (Interval.of m e).den - 16) = some c := by
  have hden : 0 < (Interval.of m e).den := Nat.pow_pos (by decide)
  have hmid : 0 < (Interval.of m e).mid :=
    Nat.mul_pos (Nat.mul_pos (by decide) hm) (Nat.pow_pos (by decide))
  have hlead := pow_leadingExponent_le hmid hden
  obtain ⟨k, hk⟩ : ∃ k, k = leadingExponent (Interval.of m e).mid (Interval.of m e).den - 16 := ⟨_, rfl⟩
  rw [← hk]
  obtain ⟨hle, hlt⟩ := Interval.down_bounds hden k
  rcases (Interval.of m e).nearest?_cases tie k with ⟨c, hc, -⟩ | ⟨-, hdown, hup⟩
  · exact ⟨c, hc⟩
  · exfalso
    have hpow : (0 : ℚ) < 2 ^ e := zpow_pos (by norm_num) e
    have hw : (10 : ℚ) ^ k / 2 ^ e * 10 ^ 16 ≤ m := by
      rw [← mul_div_right_comm, div_le_iff₀ hpow, ← mid_div_den]
      refine le_of_eq_of_le ?_ hlead
      rw [hk, zpow_sub₀ (by norm_num)]
      field_simp
    rw [← Bool.not_eq_true, Interval.hasDecimal_iff, contains_of_iff hm] at hdown hup
    rw [mid_div_den, ← div_le_iff₀ hpow] at hle
    rw [mid_div_den, ← lt_div_iff₀ hpow, add_one_mul, add_div] at hlt
    rw [Nat.cast_succ, add_one_mul, add_div] at hup
    have hm' : (m : ℚ) < m + 1 / 2 := by linarith
    have hb : (m : ℚ) - below m e < m := by
      rcases below_eq_or m e with ⟨-, -, hbelow⟩ | hbelow
      · linarith
      · linarith
    rcases close_of_step h hlt hw with hnear | hnear
    · exact hdown ⟨hnear.le, (hle.trans_lt hm').le, fun _ => ⟨hnear, hle.trans_lt hm'⟩⟩
    · exact hup ⟨(hb.trans hlt).le, hnear.le, fun _ => ⟨hb.trans hlt, hnear⟩⟩

/-! ### The shortest digits -/

theorem dropZeros_eq (ds : List Char) :
    (dropZeros ds).1 ++ List.replicate (dropZeros ds).2 '0' = ds := by
  fun_induction dropZeros ds with
  | case1 => rfl
  | case2 ds n hrest ih =>
    rw [hrest, List.nil_append] at ih
    rw [List.nil_append, List.replicate_succ, ih]
  | case3 d ds n hrest hd ih =>
    rw [hrest, List.nil_append] at ih
    rw [List.singleton_append, ih]
  | case4 d ds es n hne hrest ih =>
    rw [hrest] at ih
    rw [List.cons_append, ih]

/-- The value of digits without the zeros at the end. -/
theorem ofDigitChars_dropZeros (ds : List Char) : Nat.ofDigitChars 10 ds 0 =
    10 ^ (dropZeros ds).2 * Nat.ofDigitChars 10 (dropZeros ds).1 0 := by
  conv_lhs => rw [← dropZeros_eq ds]
  rw [Nat.ofDigitChars_append, Nat.ofDigitChars_replicate_zero]

/-- The shortest digits are those of a decimal that is found. -/
theorem shortestDigits_cases (h : Canonical m e) (hm : 0 < m) (tie : Tie) : ∃ c k,
    (Interval.of m e).nearest? tie k = some c ∧ shortestDigits tie m e =
      ((dropZeros (Nat.toDigits 10 c)).1, k + (dropZeros (Nat.toDigits 10 c)).2) := by
  obtain ⟨top, htop⟩ : ∃ top, top = leadingExponent (Interval.of m e).mid (Interval.of m e).den :=
    ⟨_, rfl⟩
  obtain ⟨f, hf⟩ : ∃ f, f = fun n : Nat => ((Interval.of m e).nearest? tie (top - (n : Nat))).map
      fun c => (c, top - (n : Nat)) := ⟨_, rfl⟩
  have hsome : ((List.range 17).findSome? f).isSome = true := by
    obtain ⟨c, hc⟩ := nearest?_seventeen h hm tie
    refine List.findSome?_isSome_iff.2 ⟨16, by decide, ?_⟩
    subst hf htop
    show (Option.map _ ((Interval.of m e).nearest? tie (_ - 16))).isSome = true
    rw [hc]
    rfl
  obtain ⟨hit, hhit⟩ := Option.isSome_iff_exists.1 hsome
  obtain ⟨n, -, hn⟩ := List.exists_of_findSome?_eq_some hhit
  rw [hf] at hn
  obtain ⟨c, hc, rfl⟩ := Option.map_eq_some_iff.1 hn
  refine ⟨c, top - (n : Nat), hc, ?_⟩
  simp only [shortestDigits, ← htop, ← hf, hhit, Option.getD_some]

/-- The shortest digits of a number are in its interval. -/
theorem shortestDigits_contains (h : Canonical m e) (hm : 0 < m) (hds : shortestDigits tie m e = (ds, k)) :
    ds ≠ [] ∧ (∀ c ∈ ds, c.isDigit = true) ∧
      (Interval.of m e).Contains (Nat.ofDigitChars 10 ds 0 * 10 ^ k) := by
  obtain ⟨c, k', hc, heq⟩ := shortestDigits_cases h hm tie
  obtain ⟨rfl, rfl⟩ := Prod.mk.inj (hds.symm.trans heq)
  refine ⟨dropZeros_toDigits (Interval.nearest?_pos hm hc), (shortestDigits_spec hm hds).1, ?_⟩
  have hvalue := ofDigitChars_dropZeros (Nat.toDigits 10 c)
  rw [Nat.ofDigitChars_toDigits (by decide) (by decide)] at hvalue
  have hcontains := Interval.contains_of_nearest? hc
  rw [hvalue] at hcontains
  refine cast (congrArg _ ?_) hcontains
  rw [zpow_add₀ (by norm_num), zpow_natCast]
  push_cast
  ring

end Digits

end FeatureTables.Number
