import FeatureTables.Number.Shortest
import Mathlib.Algebra.Order.Field.Basic
import Mathlib.Data.Nat.Log
import Mathlib.Tactic.FieldSimp
import Mathlib.Tactic.Linarith
import Mathlib.Tactic.NormNum
import Mathlib.Tactic.Positivity
import Mathlib.Tactic.Ring

/-!
Rounding to binary floating-point numbers. The interval of a number has the reals that round to it: each
quotient inside of it gives the number back (`Binary64.ofRatio_of_contains`). Intervals are compared with
rounding on the exact scale of the number, `m` and halves of its last place beside it.
-/

namespace FeatureTables.Number

/-! ### Intervals -/

/-- A power is a quotient of powers with whole exponents, one of them zero. -/
theorem zpow_eq_div {b : ℚ} (hb : b ≠ 0) (k : ℤ) : b ^ k = b ^ k.toNat / b ^ (-k).toNat := by
  rw [eq_div_iff (pow_ne_zero _ hb), ← zpow_natCast b k.toNat, ← zpow_natCast b (-k).toNat,
    ← zpow_add₀ hb]
  congr 1
  omega

/-- The scale of an interval: four times the ends, on its denominator. -/
theorem zpow_eq_four_mul (e : ℤ) : (2 : ℚ) ^ e = 4 * (2 ^ (e - 2).toNat / 2 ^ (2 - e).toNat) := by
  rw [← neg_sub e 2, ← zpow_eq_div (by norm_num), zpow_sub₀ (by norm_num)]
  norm_num
  ring

/-- A number inside of an interval: between its ends, and at one of them only if it is closed. -/
structure Interval.Contains (i : Interval) (v : ℚ) : Prop where
  low : i.low ≤ v * i.den
  high : v * i.den ≤ i.high
  strict : i.closed = false → i.low < v * i.den ∧ v * i.den < i.high

/-- How far below `m * 2 ^ e` numbers round to it, on the scale of `m`. The number below is only half as
far away where the width changes. -/
def below (m : Nat) (e : Int) : ℚ := if m = 2 ^ 52 ∧ -1074 < e then 1 / 4 else 1 / 2

theorem below_eq_or (m : Nat) (e : Int) :
    m = 2 ^ 52 ∧ -1074 < e ∧ below m e = 1 / 4 ∨ below m e = 1 / 2 := by
  unfold below
  split
  · next h => exact Or.inl ⟨h.1, h.2, rfl⟩
  · exact Or.inr rfl

section Contains

variable {m : Nat} {e : Int} {v : ℚ}

/-- The interval of a number, on the scale of its digits. -/
theorem contains_of_iff (hm : 0 < m) : (Interval.of m e).Contains v ↔
    m - below m e ≤ v / 2 ^ e ∧ v / 2 ^ e ≤ m + 1 / 2 ∧
      (m % 2 = 1 → m - below m e < v / 2 ^ e ∧ v / 2 ^ e < m + 1 / 2) := by
  have hden : (0 : ℚ) < 2 ^ (2 - e).toNat := by positivity
  have hup : (0 : ℚ) < 2 ^ (e - 2).toNat := by positivity
  have hscale : v * 2 ^ (2 - e).toNat = 4 * (v / 2 ^ e) * 2 ^ (e - 2).toNat := by
    rw [zpow_eq_four_mul]
    field_simp
  have hlow : ((Interval.of m e).low : ℚ) = 4 * (m - below m e) * 2 ^ (e - 2).toNat := by
    simp only [Interval.of, below, Nat.pow_eq, Nat.cast_mul, Nat.cast_pow, Nat.cast_ofNat]
    split
    · rw [Nat.cast_sub (by omega)]
      push_cast
      ring
    · rw [Nat.cast_sub (by omega)]
      push_cast
      ring
  have hhigh : ((Interval.of m e).high : ℚ) = 4 * (m + 1 / 2) * 2 ^ (e - 2).toNat := by
    simp only [Interval.of, Nat.pow_eq, Nat.cast_mul, Nat.cast_pow, Nat.cast_ofNat]
    push_cast
    ring
  have hclosed : (Interval.of m e).closed = false ↔ m % 2 = 1 := by
    simp [Interval.of]
  have hle : ∀ x y : ℚ, 4 * x * 2 ^ (e - 2).toNat ≤ 4 * y * 2 ^ (e - 2).toNat ↔ x ≤ y := fun x y => by
    rw [mul_le_mul_iff_left₀ hup, mul_le_mul_iff_right₀ (by norm_num)]
  have hlt : ∀ x y : ℚ, 4 * x * 2 ^ (e - 2).toNat < 4 * y * 2 ^ (e - 2).toNat ↔ x < y := fun x y => by
    rw [mul_lt_mul_iff_left₀ hup, mul_lt_mul_iff_right₀ (by norm_num)]
  have hd : ((Interval.of m e).den : ℚ) = 2 ^ (2 - e).toNat := by
    simp [Interval.of]
  constructor
  · rintro ⟨h₁, h₂, h₃⟩
    rw [hd, hscale, hlow, hle] at h₁
    rw [hd, hscale, hhigh, hle] at h₂
    rw [hclosed, hd, hscale, hlow, hhigh, hlt, hlt] at h₃
    exact ⟨h₁, h₂, h₃⟩
  · rintro ⟨h₁, h₂, h₃⟩
    refine ⟨?_, ?_, ?_⟩
    · rwa [hd, hscale, hlow, hle]
    · rwa [hd, hscale, hhigh, hle]
    · rwa [hclosed, hd, hscale, hlow, hhigh, hlt, hlt]

end Contains

/-! ### Rounding quotients -/

namespace Binary64

theorem roundQuotient_of_le {num den k : Nat} (low : 2 * k * den ≤ 2 * num + den)
    (high : 2 * num ≤ (2 * k + 1) * den)
    (strict : k % 2 = 1 → 2 * k * den < 2 * num + den ∧ 2 * num < (2 * k + 1) * den) (hden : 0 < den) :
    roundQuotient num den = k := by
  have hdiv := Nat.div_add_mod num den
  have hmod := Nat.mod_lt num hden
  rw [roundQuotient]
  generalize num / den = q at hdiv ⊢
  generalize num % den = r at hdiv hmod ⊢
  obtain rfl | rfl : k = q ∨ k = q + 1 := by
    have hle : k ≤ q + 1 := by
      by_contra hk
      have := Nat.mul_le_mul_right den (show q + 2 ≤ k by omega)
      linarith
    have hge : q ≤ k := by
      by_contra hk
      have := Nat.mul_le_mul_right den (show k + 1 ≤ q by omega)
      linarith
    omega
  · -- the rest is at most a half, and less than that next to an odd number
    have hhalf : 2 * r ≤ den := by linarith
    rw [if_neg]
    rintro (hlt | ⟨heq, hodd⟩)
    · omega
    · have := (strict hodd).2
      linarith
  · have hhalf : den ≤ 2 * r := by linarith
    rw [if_pos]
    by_cases heq : 2 * r = den
    · refine Or.inr ⟨heq, ?_⟩
      by_contra heven
      have := (strict (by omega)).1
      linarith
    · exact Or.inl (by omega)

/-- The whole number within half of a quotient, if it is even where it is just half away. -/
theorem roundQuotient_eq {num den k : Nat} (hden : 0 < den) (low : (k : ℚ) - 1 / 2 ≤ num / den)
    (high : (num : ℚ) / den ≤ k + 1 / 2)
    (strict : k % 2 = 1 → (k : ℚ) - 1 / 2 < num / den ∧ (num : ℚ) / den < k + 1 / 2) :
    roundQuotient num den = k := by
  have hpos : (0 : ℚ) < den := by exact_mod_cast hden
  rw [le_div_iff₀ hpos] at low
  rw [div_le_iff₀ hpos] at high
  rw [lt_div_iff₀ hpos, div_lt_iff₀ hpos] at strict
  refine roundQuotient_of_le ?_ ?_ (fun hodd => ⟨?_, ?_⟩) hden
  · have : (2 * k * den : ℚ) ≤ 2 * num + den := by linarith
    exact_mod_cast this
  · have : (2 * num : ℚ) ≤ (2 * k + 1) * den := by linarith
    exact_mod_cast this
  · have : (2 * k * den : ℚ) < 2 * num + den := by linarith [(strict hodd).1]
    exact_mod_cast this
  · have : (2 * num : ℚ) < (2 * k + 1) * den := by linarith [(strict hodd).2]
    exact_mod_cast this

/-! ### The exponent of a quotient -/

theorem scaled_eq (num : Nat) {den : Nat} (e : Int) (hden : 0 < den) : 0 < (scaled num den e).2 ∧
    ((scaled num den e).1 : ℚ) / (scaled num den e).2 = num / den / 2 ^ e := by
  have htwo : (2 : ℚ) ^ e = 2 ^ e.toNat / 2 ^ (-e).toNat := zpow_eq_div (by norm_num) e
  unfold scaled
  split
  · next he =>
    refine ⟨Nat.mul_pos hden (Nat.pow_pos (by decide)), ?_⟩
    rw [htwo, show (-e).toNat = 0 by omega, Nat.pow_eq]
    push_cast
    rw [pow_zero, div_one, div_div]
  · next he =>
    refine ⟨hden, ?_⟩
    rw [htwo, show e.toNat = 0 by omega, Nat.pow_eq]
    push_cast
    rw [pow_zero, div_div_eq_mul_div, div_one, div_mul_eq_mul_div]

/-- The exponent at which a quotient has the full width, or the least one. -/
structure Places (v : ℚ) (e : Int) : Prop where
  least : -1074 ≤ e
  high : v / 2 ^ e < 2 ^ 53
  low : e = -1074 ∨ 2 ^ 52 ≤ v / 2 ^ e

section Places

variable {num den : Nat}

/-- A quotient compared with a power, by the lengths of its parts. -/
theorem log2_bounds (hnum : 0 < num) (hden : 0 < den) :
    (2 : ℚ) ^ 52 ≤ num / den / 2 ^ ((num.log2 : Int) - den.log2 - 53) ∧
      (num / den / 2 ^ ((num.log2 : Int) - den.log2 - 53) : ℚ) < 2 ^ 54 := by
  have hnum₁ : (2 : ℚ) ^ num.log2 ≤ num := by exact_mod_cast Nat.log2_self_le (Nat.pos_iff_ne_zero.1 hnum)
  have hnum₂ : (num : ℚ) < 2 ^ (num.log2 + 1) := by exact_mod_cast Nat.lt_log2_self
  have hden₁ : (2 : ℚ) ^ den.log2 ≤ den := by exact_mod_cast Nat.log2_self_le (Nat.pos_iff_ne_zero.1 hden)
  have hden₂ : (den : ℚ) < 2 ^ (den.log2 + 1) := by exact_mod_cast Nat.lt_log2_self
  have hpos : (0 : ℚ) < den := by exact_mod_cast hden
  have hpow : (2 : ℚ) ^ ((num.log2 : Int) - den.log2 - 53) = 2 ^ num.log2 / 2 ^ den.log2 / 2 ^ 53 := by
    rw [zpow_sub₀ (by norm_num), zpow_sub₀ (by norm_num)]
    norm_cast
  have hlow : (2 : ℚ) ^ num.log2 / 2 ^ (den.log2 + 1) ≤ num / den :=
    div_le_div₀ (by positivity) hnum₁ hpos hden₂.le
  have hhigh : (num : ℚ) / den < 2 ^ (num.log2 + 1) / 2 ^ den.log2 :=
    div_lt_div₀ hnum₂ hden₁ (by positivity) (by positivity)
  rw [hpow]
  constructor
  · rw [le_div_iff₀ (by positivity)]
    refine le_of_eq_of_le ?_ hlow
    rw [pow_succ 2 den.log2]
    field_simp
  · rw [div_lt_iff₀ (by positivity)]
    refine lt_of_lt_of_eq hhigh ?_
    rw [pow_succ 2 num.log2]
    field_simp

/-- A quotient is rounded at the exponent at which it has the full width. -/
theorem ofRatio_eq (hnum : 0 < num) (hden : 0 < den) (negative : Bool) : ∃ e, ∃ n d : Nat,
    Places (num / den) e ∧ 0 < d ∧ (n : ℚ) / d = num / den / 2 ^ e ∧
      ofRatio negative num den = if roundQuotient n d = 2 ^ 53 then make negative (2 ^ 52) (e + 1)
        else make negative (roundQuotient n d) e := by
  obtain ⟨e₀, he₀⟩ : ∃ e₀ : Int, e₀ = max (-1074) ((num.log2 : Int) - den.log2 - 53) := ⟨_, rfl⟩
  obtain ⟨e, he⟩ : ∃ e, e = if 2 ^ 53 ≤ (scaled num den e₀).1 / (scaled num den e₀).2 then e₀ + 1 else e₀ :=
    ⟨_, rfl⟩
  have hpos := (scaled_eq num e hden).1
  refine ⟨e, _, _, ?_, hpos, (scaled_eq num e hden).2, ?_⟩
  · obtain ⟨hlow, hhigh⟩ := log2_bounds hnum hden
    obtain ⟨hd₀, hscaled⟩ := scaled_eq num e₀ hden
    have htest : 2 ^ 53 ≤ (scaled num den e₀).1 / (scaled num den e₀).2 ↔
        (2 : ℚ) ^ 53 ≤ num / den / 2 ^ e₀ := by
      rw [Nat.le_div_iff_mul_le hd₀, ← hscaled, le_div_iff₀ (by exact_mod_cast hd₀)]
      exact_mod_cast Iff.rfl
    have hhigh₀ : (num / den / 2 ^ e₀ : ℚ) < 2 ^ 54 := by
      refine lt_of_le_of_lt ?_ hhigh
      refine div_le_div_of_nonneg_left (by positivity) (zpow_pos (by norm_num) _) ?_
      exact zpow_le_zpow_right₀ (by norm_num) (by omega)
    split at he
    · next hfull =>
      rw [htest] at hfull
      have hhalf : (num / den / 2 ^ e : ℚ) = num / den / 2 ^ e₀ / 2 := by
        rw [he, zpow_add_one₀ (by norm_num), ← div_div]
      refine ⟨by omega, ?_, Or.inr ?_⟩
      · rw [hhalf]
        linarith
      · rw [hhalf]
        linarith
    · next hfull =>
      rw [htest] at hfull
      refine ⟨by omega, he ▸ not_le.1 hfull, ?_⟩
      rcases le_total (-1074) ((num.log2 : Int) - den.log2 - 53) with hle | hle
      · rw [max_eq_right hle] at he₀
        exact Or.inr (by rwa [he, he₀])
      · rw [max_eq_left hle] at he₀
        exact Or.inl (by rw [he, he₀])
  · rw [ofRatio, if_neg (Nat.pos_iff_ne_zero.1 hnum)]
    simp only [Nat.pow_eq, ← he₀, ← he]

end Places

/-! ### What rounds to a number -/

section Contains

variable {m num den : Nat} {e : Int}

theorem make_eq (h : Canonical m e) (negative : Bool) : make negative m e = .finite negative m e h :=
  dif_pos h

/-- From one exponent to another one. -/
theorem div_zpow (v : ℚ) (e e' : Int) : v / 2 ^ e = v / 2 ^ e' * 2 ^ (e' - e) := by
  rw [zpow_sub₀ (by norm_num)]
  field_simp

/-- Each quotient in the interval of a number is rounded to it. -/
theorem ofRatio_of_contains (h : Canonical m e) (hm : 0 < m) (hden : 0 < den)
    (hcontains : (Interval.of m e).Contains (num / den)) (negative : Bool) :
    ofRatio negative num den = .finite negative m e h := by
  obtain ⟨hlow, hhigh, hstrict⟩ := (contains_of_iff hm).1 hcontains
  obtain ⟨hwidth, hleast, -, hfull⟩ := id h
  rw [Nat.pow_eq] at hwidth hfull
  have hm₁ : (1 : ℚ) ≤ m := by exact_mod_cast hm
  have hm₂ : (m : ℚ) + 1 ≤ 2 ^ 53 := by exact_mod_cast hwidth
  have hbelow : below m e ≤ 1 / 2 := by
    rcases below_eq_or m e with ⟨-, -, h⟩ | h
    · rw [h]
      norm_num
    · rw [h]
  have hnum : 0 < num := by
    by_contra hzero
    rw [Nat.eq_zero_of_not_pos hzero, Nat.cast_zero, zero_div, zero_div] at hlow
    linarith
  obtain ⟨e', n, d, ⟨hleast', hwidth', hfull'⟩, hd, hscaled, heq⟩ := ofRatio_eq hnum hden negative
  generalize (num / den : ℚ) = v at *
  rw [heq]
  rcases lt_trichotomy e' e with hlt | rfl | hgt
  · -- only the least number of the width is reached from a smaller exponent, and from the next one only
    have hwide : 2 ^ 52 ≤ m := hfull.resolve_right (by omega)
    have hpow : ∀ k : Nat, (k : Int) ≤ e - e' → v / 2 ^ e * 2 ^ k ≤ v / 2 ^ e' := by
      intro k hk
      rw [div_zpow v e' e, ← zpow_natCast]
      refine mul_le_mul_of_nonneg_left (zpow_le_zpow_right₀ (by norm_num) hk) ?_
      linarith
    have hm : m = 2 ^ 52 := by
      by_contra hne
      have hm₃ : (2 : ℚ) ^ 52 + 1 ≤ m := by exact_mod_cast (show 2 ^ 52 + 1 ≤ m by omega)
      have := hpow 1 (by omega)
      linarith
    have hquarter : below m e = 1 / 4 := if_pos ⟨hm, by omega⟩
    have hm₃ : (m : ℚ) = 2 ^ 52 := by exact_mod_cast hm
    have he : e' + 1 = e := by
      by_contra hne
      have := hpow 2 (by omega)
      linarith
    have hround : roundQuotient n d = 2 ^ 53 := by
      have := hpow 1 (by omega)
      refine roundQuotient_eq hd ?_ ?_ (fun hodd => absurd hodd (by decide))
      · rw [hscaled]
        push_cast
        linarith
      · rw [hscaled]
        push_cast
        linarith
    rw [if_pos hround, he]
    subst hm
    exact make_eq h negative
  · have hround : roundQuotient n d = m := by
      refine roundQuotient_eq hd ?_ ?_ fun hodd => ⟨?_, ?_⟩
      · rw [hscaled]
        linarith
      · rw [hscaled]
        exact hhigh
      · rw [hscaled]
        linarith [(hstrict hodd).1]
      · rw [hscaled]
        exact (hstrict hodd).2
    rw [hround, if_neg (Nat.ne_of_lt hwidth)]
    exact make_eq h negative
  · -- a greater exponent is for quotients above the interval
    have hfull' := hfull'.resolve_left (by omega)
    have hpow : v / 2 ^ e' * 2 ^ 1 ≤ v / 2 ^ e := by
      rw [div_zpow v e e']
      refine mul_le_mul_of_nonneg_left ?_ (by linarith)
      exact_mod_cast zpow_le_zpow_right₀ (a := (2 : ℚ)) (by norm_num) (show (1 : Int) ≤ e' - e by omega)
    linarith

end Contains

end Binary64
end FeatureTables.Number
