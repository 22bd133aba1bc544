import Mathlib.Data.Rat.Floor
import Mathlib.Algebra.Order.Floor.Ring
import Mathlib.Tactic.NormNum
import Mathlib.Tactic.Positivity
import Mathlib.Tactic.FieldSimp
import Mathlib.Tactic.Linarith

/-!
# Doubles

Rational numbers are rounded to the nearest double, and to the even one of two that are equally
near. A finite double is kept as the number that it stands for, without the sign of a zero.
-/

namespace YtdlBot.Framework.Doubles

section Rounding

/-- The largest exponent of a power of two that does not exceed the size of `q`. -/
def exponent (q : ℚ) : ℤ :=
  let e : ℤ := (Nat.log2 q.num.natAbs : ℤ) - Nat.log2 q.den
  if (2 : ℚ) ^ e ≤ |q| then e else e - 1

/-- The exponent of the last binary place of a double near `q`. -/
def place (q : ℚ) : ℤ := max (exponent q - 52) (-1074)

/-- The nearest integer. -/
def nearestEven (q : ℚ) : ℤ :=
  if q - ⌊q⌋ < 1 / 2 ∨ q - ⌊q⌋ = 1 / 2 ∧ ⌊q⌋ % 2 = 0 then ⌊q⌋ else ⌊q⌋ + 1

/-- The nearest double; `none` is beyond the largest one. -/
def toDouble (q : ℚ) : Option ℚ :=
  let unit : ℚ := 2 ^ place q
  let r := nearestEven (q / unit) * unit
  if |r| < 2 ^ 1024 then some r else none

theorem nearestEven_intCast (n : ℤ) : nearestEven n = n := by
  simp [nearestEven]

theorem nearestEven_nonneg {q : ℚ} (h : 0 ≤ q) : 0 ≤ nearestEven q := by
  have hfloor : 0 ≤ ⌊q⌋ := Int.floor_nonneg.mpr h
  unfold nearestEven
  split_ifs <;> omega

theorem toDouble_nonneg {q r : ℚ} (hq : 0 ≤ q) (h : toDouble q = some r) : 0 ≤ r := by
  obtain ⟨-, h⟩ := Option.ite_none_right_eq_some.mp h
  obtain rfl := Option.some.inj h
  have hunit : (0 : ℚ) < 2 ^ place q := zpow_pos (by norm_num) _
  have hnearest : (0 : ℚ) ≤ nearestEven (q / 2 ^ place q) := by
    exact_mod_cast nearestEven_nonneg (by positivity)
  positivity

theorem toDouble_of_places {q : ℚ} {n : ℤ} (hq : q = n * 2 ^ place q) (hsize : |q| < 2 ^ 1024) :
    toDouble q = some q := by
  have hunit : (2 : ℚ) ^ place q ≠ 0 := zpow_ne_zero _ (by norm_num)
  have hquotient : q / 2 ^ place q = n := by
    rw [div_eq_iff hunit]
    exact hq
  have hback : (nearestEven (q / 2 ^ place q) : ℚ) * 2 ^ place q = q := by
    rw [hquotient, nearestEven_intCast, ← hq]
  rw [toDouble, hback]
  exact if_pos hsize

theorem toDouble_natCast {n : ℕ} (h : n < 2 ^ 53) : toDouble n = some (n : ℚ) := by
  have hlog : Nat.log2 n ≤ 52 := by
    by_cases hn : n = 0
    · simp [hn]
    · have := (Nat.log2_lt hn).mpr h
      omega
  have hexponent : exponent n ≤ 52 := by
    have hone : Nat.log2 1 = 0 := by decide
    unfold exponent
    simp only [Rat.num_natCast, Rat.den_natCast, Int.natAbs_natCast, hone]
    split_ifs <;> omega
  have hplace : place n ≤ 0 := max_le (by omega) (by decide)
  obtain ⟨k, hk⟩ : ∃ k : ℕ, place n = -k := ⟨(-place n).toNat, by omega⟩
  have hplaces : (n : ℚ) = ((n * 2 ^ k : ℕ) : ℤ) * 2 ^ place n := by
    have htwo : (2 : ℚ) ^ k ≠ 0 := by positivity
    rw [hk, zpow_neg, zpow_natCast]
    push_cast
    field_simp
  refine toDouble_of_places hplaces ?_
  have hsize : (n : ℚ) < 2 ^ 53 := by exact_mod_cast h
  rw [abs_of_nonneg (by positivity)]
  exact hsize.trans (pow_lt_pow_right₀ (by norm_num) (by decide))

theorem floor_le_nearestEven (q : ℚ) : ⌊q⌋ ≤ nearestEven q := by
  unfold nearestEven
  split_ifs <;> omega

theorem nearestEven_nonpos {q : ℚ} (h : q ≤ 0) : nearestEven q ≤ 0 := by
  rcases h.eq_or_lt with rfl | hneg
  · exact_mod_cast (nearestEven_intCast 0).le
  · have hfloor : ⌊q⌋ < 0 := Int.floor_lt.mpr (by exact_mod_cast hneg)
    unfold nearestEven
    split_ifs <;> omega

theorem toDouble_nonpos {q r : ℚ} (hq : q ≤ 0) (h : toDouble q = some r) : r ≤ 0 := by
  obtain ⟨-, h⟩ := Option.ite_none_right_eq_some.mp h
  obtain rfl := Option.some.inj h
  have hunit : (0 : ℚ) < 2 ^ place q := zpow_pos (by norm_num) _
  have hnearest : (nearestEven (q / 2 ^ place q) : ℚ) ≤ 0 := by
    exact_mod_cast nearestEven_nonpos (div_nonpos_of_nonpos_of_nonneg hq hunit.le)
  exact mul_nonpos_of_nonpos_of_nonneg hnearest hunit.le

theorem exponent_natCast {n : ℕ} (hn : n ≠ 0) : exponent n = Nat.log2 n := by
  have hone : Nat.log2 1 = 0 := by decide
  have hself : (2 : ℚ) ^ Nat.log2 n ≤ n := by exact_mod_cast Nat.log2_self_le hn
  simp [exponent, hone, hself]

theorem toDouble_natCast_large {n : ℕ} {r : ℚ} (hn : 2 ^ 53 ≤ n) (h : toDouble n = some r) :
    2 ^ 52 ≤ r := by
  have hne : n ≠ 0 := by
    rintro rfl
    simp at hn
  have hlog : 53 ≤ Nat.log2 n := (Nat.le_log2 hne).mpr hn
  have hplace : place n = ((Nat.log2 n - 52 : ℕ) : ℤ) := by
    rw [place, exponent_natCast hne]
    omega
  obtain ⟨-, h⟩ := Option.ite_none_right_eq_some.mp h
  obtain rfl := Option.some.inj h
  rw [hplace, zpow_natCast]
  obtain ⟨k, hk⟩ : ∃ k, Nat.log2 n = k + 52 := ⟨Nat.log2 n - 52, by omega⟩
  have hself : 2 ^ (k + 52) ≤ n := hk ▸ Nat.log2_self_le hne
  rw [hk, Nat.add_sub_cancel]
  have hquotient : (2 ^ 52 : ℤ) ≤ ⌊(n : ℚ) / 2 ^ k⌋ := by
    rw [Int.le_floor, le_div_iff₀ (by positivity)]
    have hproduct : 2 ^ 52 * 2 ^ k ≤ n := by rwa [← pow_add, Nat.add_comm]
    exact_mod_cast hproduct
  have hnearest : (2 ^ 52 : ℚ) ≤ nearestEven ((n : ℚ) / 2 ^ k) := by
    exact_mod_cast hquotient.trans (floor_le_nearestEven _)
  have hpow : (1 : ℚ) ≤ 2 ^ k := one_le_pow₀ (by norm_num)
  nlinarith

theorem le_toDouble_iff {n : ℤ} {r : ℚ} {k : ℕ} (hk : 0 < k) (hsmall : k ≤ 2 ^ 52)
    (h : toDouble n = some r) : (k : ℚ) ≤ r ↔ (k : ℤ) ≤ n := by
  have hkpos : (0 : ℚ) < k := by exact_mod_cast hk
  rcases le_or_gt n 0 with hneg | hpos
  · have hr := toDouble_nonpos (by exact_mod_cast hneg) h
    constructor
    · intro hle
      linarith
    · intro hle
      omega
  · obtain ⟨m, rfl⟩ := Int.eq_ofNat_of_zero_le hpos.le
    rw [Int.cast_natCast] at h
    by_cases hm : m < 2 ^ 53
    · cases (toDouble_natCast hm).symm.trans h
      norm_cast
    · have hr := toDouble_natCast_large (not_lt.mp hm) h
      have hkr : (k : ℚ) ≤ 2 ^ 52 := by exact_mod_cast hsmall
      exact ⟨fun _ => by omega, fun _ => hkr.trans hr⟩
end Rounding

inductive Double where
  | finite (value : ℚ)
  | infinite (negative : Bool)
  | nan
deriving DecidableEq

namespace Double

def ofRat (q : ℚ) : Double :=
  match toDouble q with
  | some r => finite r
  | none => infinite (q < 0)

def add : Double → Double → Double
  | finite a, finite b => ofRat (a + b)
  | nan, _ => nan
  | _, nan => nan
  | infinite a, infinite b => if a = b then infinite a else nan
  | infinite a, finite _ => infinite a
  | finite _, infinite b => infinite b

def mul : Double → Double → Double
  | finite a, finite b => ofRat (a * b)
  | nan, _ => nan
  | _, nan => nan
  | infinite a, infinite b => infinite (a != b)
  | infinite a, finite b => if b = 0 then nan else infinite (a != decide (b < 0))
  | finite a, infinite b => if a = 0 then nan else infinite (decide (a < 0) != b)

/-- The number that a finite double stands for. -/
def rational : Double → Option ℚ
  | finite q => some q
  | infinite _ => none
  | nan => none

/-- Zero, a positive number or the positive infinity. -/
def Nonneg : Double → Prop
  | finite q => 0 ≤ q
  | infinite negative => negative = false
  | nan => False

theorem ofRat_natCast {n : ℕ} (h : n < 2 ^ 53) : ofRat n = finite n := by
  rw [ofRat, toDouble_natCast h]

theorem ofRat_nonneg {q : ℚ} (h : 0 ≤ q) : (ofRat q).Nonneg := by
  unfold ofRat
  split
  next r hr => exact toDouble_nonneg h hr
  next => simpa [Nonneg] using h

theorem Nonneg.add {a b : Double} (ha : a.Nonneg) (hb : b.Nonneg) : (a.add b).Nonneg := by
  cases a with
  | nan => exact ha.elim
  | finite a =>
    cases b with
    | nan => exact hb.elim
    | finite b => exact ofRat_nonneg (add_nonneg ha hb)
    | infinite b => exact hb
  | infinite a =>
    cases b with
    | nan => exact hb.elim
    | finite b => exact ha
    | infinite b =>
      obtain rfl : a = false := ha
      obtain rfl : b = false := hb
      rfl

theorem Nonneg.mul_pos {a : Double} {b : ℚ} (ha : a.Nonneg) (hb : 0 < b) :
    (a.mul (finite b)).Nonneg := by
  cases a with
  | nan => exact ha.elim
  | finite a => exact ofRat_nonneg (mul_nonneg ha hb.le)
  | infinite a =>
    have hsame : a = false := ha
    simp [mul, hb.ne', hb.le, hsame, Nonneg]

end Double

end YtdlBot.Framework.Doubles
