import Mathlib.Data.Nat.Log
import Mathlib.Tactic.Positivity
import Mathlib.Tactic.Ring

/-!
# Binary floating-point formats

A small library of binary interchange formats: enough to convert between two
formats and to and from integers, with rounding to nearest and ties to even.

A datum is its three fields (`Datum`). Every finite datum is a natural multiple of
the smallest subnormal of its format, and `Datum.mag` is that multiple; so a
magnitude is a plain natural number and a conversion is: take the magnitude, scale
it to the unit of the target, round it to the precision of the target
(`roundMag`), and pack the fields again (`pack`).

The two facts everything rests on are `mag_pack` (packing a representable
magnitude loses nothing) and `pack_mag` (packing the magnitude of a finite datum
gives the datum back).
-/

namespace BinaryFloat

/-- A format: stored fraction bits and exponent bits. -/
structure Format : Type where
  /-- stored fraction bits -/
  fracBits : ℕ
  /-- exponent bits -/
  expBits : ℕ

/-- The exponent field of infinities and NaNs. -/
def Format.expMax (f : Format) : ℕ := 2 ^ f.expBits - 1

/-- Four bytes. -/
def single : Format := ⟨23, 8⟩

/-- Eight bytes. -/
def double : Format := ⟨52, 11⟩

/-- A datum of the format: sign, biased exponent, fraction. -/
@[ext] structure Datum (f : Format) : Type where
  /-- the sign bit -/
  neg : Bool
  /-- the exponent field -/
  exp : ℕ
  /-- the fraction field -/
  frac : ℕ
  /-- the exponent field fits -/
  exp_le : exp ≤ f.expMax
  /-- the fraction field fits -/
  frac_lt : frac < 2 ^ f.fracBits
  deriving DecidableEq, Repr

variable {f : Format}

/-- Neither an infinity nor a NaN. -/
def Datum.Finite (x : Datum f) : Prop := x.exp < f.expMax

instance (x : Datum f) : Decidable x.Finite := inferInstanceAs (Decidable (_ < _))

/-- Zero, with either sign. -/
def Datum.IsZero (x : Datum f) : Prop := x.exp = 0 ∧ x.frac = 0

instance (x : Datum f) : Decidable x.IsZero := inferInstanceAs (Decidable (_ ∧ _))

/-- The magnitude of a finite datum, in multiples of the smallest subnormal. -/
def Datum.mag (x : Datum f) : ℕ :=
  if x.exp = 0 then x.frac else (2 ^ f.fracBits + x.frac) * 2 ^ (x.exp - 1)

/-- The infinity of the given sign. -/
def infinity (f : Format) (neg : Bool) : Datum f := ⟨neg, f.expMax, 0, le_rfl, by positivity⟩

/-- The exponent step of a magnitude: how far its leading bit lies above the
fraction. -/
def step (f : Format) (n : ℕ) : ℕ := n.log2 - f.fracBits

/-- Pack a magnitude, going to infinity when it does not fit. -/
def pack (f : Format) (neg : Bool) (n : ℕ) : Datum f :=
  if h : n < 2 ^ f.fracBits then ⟨neg, 0, n, Nat.zero_le _, h⟩
  else if h : step f n + 1 < f.expMax ∧ n / 2 ^ step f n - 2 ^ f.fracBits < 2 ^ f.fracBits then
    ⟨neg, step f n + 1, n / 2 ^ step f n - 2 ^ f.fracBits, h.1.le, h.2⟩
  else infinity f neg

/-- Round `n / 2 ^ k` to a natural number with at most `m + 1` significant bits, to
nearest, ties to even. -/
def roundMag (m n k : ℕ) : ℕ :=
  let q := n / 2 ^ k
  let sh := if q < 2 ^ (m + 1) then 0 else q.log2 - m
  let lo := n / 2 ^ (k + sh)
  let r := n % 2 ^ (k + sh)
  let up := 2 ^ (k + sh) < 2 * r ∨ (2 ^ (k + sh) = 2 * r ∧ lo % 2 = 1)
  (if up then lo + 1 else lo) * 2 ^ sh

/-! ## Representable magnitudes -/

/-- At most `m + 1` significant bits. -/
def Representable (m n : ℕ) : Prop := ∃ c s, c < 2 ^ (m + 1) ∧ n = c * 2 ^ s

theorem Representable.mul_pow {m n : ℕ} (h : Representable m n) (k : ℕ) :
    Representable m (n * 2 ^ k) := by
  obtain ⟨c, s, hc, rfl⟩ := h
  exact ⟨c, s + k, hc, by rw [pow_add, mul_assoc]⟩

theorem representable_of_lt {m n : ℕ} (h : n < 2 ^ (m + 1)) : Representable m n :=
  ⟨n, 0, h, by simp⟩

theorem Datum.mag_representable (x : Datum f) : Representable f.fracBits x.mag := by
  have hlt := x.frac_lt
  unfold Datum.mag
  split
  · exact representable_of_lt (by rw [pow_succ]; omega)
  · exact (representable_of_lt (by rw [pow_succ]; omega)).mul_pow _

/-- The bits below the leading `m + 1` of a representable magnitude are zero. -/
theorem Representable.dvd {m n : ℕ} (h : Representable m n) : 2 ^ (n.log2 - m) ∣ n := by
  obtain ⟨c, s, hc, rfl⟩ := h
  rcases Nat.eq_zero_or_pos c with rfl | hpos
  · simp
  have hne : c * 2 ^ s ≠ 0 := by positivity
  have hlog : (c * 2 ^ s).log2 < m + 1 + s := by
    rw [Nat.log2_lt hne, pow_add]
    exact Nat.mul_lt_mul_of_pos_right hc (by positivity)
  exact Dvd.dvd.mul_left (pow_dvd_pow 2 (by omega)) c

/-- Rounding a representable magnitude is exact. -/
theorem roundMag_exact {m n : ℕ} (h : Representable m n) (k : ℕ) :
    roundMag m (n * 2 ^ k) k = n := by
  have hq : n * 2 ^ k / 2 ^ k = n := Nat.mul_div_cancel n (by positivity)
  obtain ⟨sh, hsh, hdvd⟩ : ∃ sh, (if n < 2 ^ (m + 1) then 0 else n.log2 - m) = sh ∧ 2 ^ sh ∣ n := by
    split
    · exact ⟨0, rfl, by simp⟩
    · exact ⟨_, rfl, h.dvd⟩
  obtain ⟨c, rfl⟩ := hdvd
  have hn : 2 ^ sh * c * 2 ^ k = c * 2 ^ (k + sh) := by ring
  have hlo : c * 2 ^ (k + sh) / 2 ^ (k + sh) = c := Nat.mul_div_cancel c (by positivity)
  have hr : c * 2 ^ (k + sh) % 2 ^ (k + sh) = 0 := Nat.mul_mod_left ..
  have hpos : 0 < 2 ^ (k + sh) := by positivity
  simp only [roundMag, hq, hsh]
  rw [hn, hlo, hr, if_neg (by omega), mul_comm]

/-! ## Packing -/

theorem step_bounds {n : ℕ} (h : 2 ^ f.fracBits ≤ n) :
    2 ^ f.fracBits ≤ n / 2 ^ step f n ∧ n / 2 ^ step f n < 2 ^ (f.fracBits + 1) := by
  have hne : n ≠ 0 := fun hz => by
    rw [hz] at h
    exact absurd h (by simp)
  have hle : f.fracBits ≤ n.log2 := (Nat.le_log2 hne).mpr h
  have hsum : step f n + f.fracBits = n.log2 := Nat.sub_add_cancel hle
  constructor
  · rw [Nat.le_div_iff_mul_le (by positivity), ← pow_add, add_comm, hsum]
    exact Nat.log2_self_le hne
  · rw [Nat.div_lt_iff_lt_mul (by positivity), ← pow_add]
    have : f.fracBits + 1 + step f n = n.log2 + 1 := by omega
    rw [this]
    exact Nat.lt_log2_self

/-- What is left of a magnitude once its leading bit is dropped fits the fraction. -/
theorem step_frac_lt {n : ℕ} (h : 2 ^ f.fracBits ≤ n) :
    n / 2 ^ step f n - 2 ^ f.fracBits < 2 ^ f.fracBits := by
  obtain ⟨hlo, hhi⟩ := step_bounds h
  rw [pow_succ] at hhi
  omega

theorem pack_small {neg : Bool} {n : ℕ} (h : n < 2 ^ f.fracBits) :
    pack f neg n = ⟨neg, 0, n, Nat.zero_le _, h⟩ := by
  simp [pack, h]

theorem pack_large {neg : Bool} {n : ℕ} (h : 2 ^ f.fracBits ≤ n)
    (hfit : step f n + 1 < f.expMax) :
    pack f neg n = ⟨neg, step f n + 1, n / 2 ^ step f n - 2 ^ f.fracBits, hfit.le,
      step_frac_lt h⟩ := by
  rw [pack, dif_neg (not_lt.mpr h), dif_pos ⟨hfit, step_frac_lt h⟩]

/-- The magnitude fits the exponent range of the format. -/
def Fits (f : Format) (n : ℕ) : Prop := step f n + 1 < f.expMax

/-- **Packing loses nothing** on a representable magnitude that fits. -/
theorem mag_pack {neg : Bool} {n : ℕ} (hrep : Representable f.fracBits n) (hfit : Fits f n) :
    (pack f neg n).mag = n ∧ (pack f neg n).neg = neg ∧ (pack f neg n).Finite := by
  have hfit' : step f n + 1 < f.expMax := hfit
  by_cases h : n < 2 ^ f.fracBits
  · rw [pack_small h]
    refine ⟨by simp [Datum.mag], rfl, ?_⟩
    exact Nat.lt_of_le_of_lt (Nat.zero_le _) hfit'
  · have hle : 2 ^ f.fracBits ≤ n := not_lt.mp h
    rw [pack_large hle hfit']
    refine ⟨?_, rfl, hfit'⟩
    have hb := (step_bounds hle).1
    simp only [Datum.mag, Nat.succ_ne_zero, if_false, Nat.add_sub_cancel]
    rw [Nat.add_sub_cancel' hb]
    exact Nat.div_mul_cancel hrep.dvd

/-- **Packing the magnitude of a finite datum gives the datum back.** -/
theorem pack_mag {x : Datum f} (hx : x.Finite) : pack f x.neg x.mag = x := by
  have hfrac := x.frac_lt
  by_cases he : x.exp = 0
  · have hm : x.mag = x.frac := by simp [Datum.mag, he]
    rw [hm, pack_small hfrac]
    ext <;> simp [he]
  · -- a normal number: its logarithm gives the exponent back
    have hm : x.mag = (2 ^ f.fracBits + x.frac) * 2 ^ (x.exp - 1) := by simp [Datum.mag, he]
    have hge : 2 ^ f.fracBits ≤ x.mag := by
      rw [hm]
      exact le_trans (Nat.le_add_right _ _) (Nat.le_mul_of_pos_right _ (by positivity))
    have hne : x.mag ≠ 0 := Nat.ne_of_gt (lt_of_lt_of_le (by positivity) hge)
    have hlog : x.mag.log2 = f.fracBits + (x.exp - 1) := by
      rw [Nat.log2_eq_iff hne, hm]
      constructor
      · rw [pow_add]
        exact Nat.mul_le_mul_right _ (Nat.le_add_right _ _)
      · rw [show f.fracBits + (x.exp - 1) + 1 = f.fracBits + 1 + (x.exp - 1) by omega, pow_add,
          pow_succ]
        exact Nat.mul_lt_mul_of_pos_right (by omega) (by positivity)
    have hstep : step f x.mag = x.exp - 1 := by
      rw [step, hlog, Nat.add_sub_cancel_left]
    have hfit : step f x.mag + 1 < f.expMax := by
      rw [hstep]
      have : x.exp < f.expMax := hx
      omega
    rw [pack_large hge hfit]
    have hdiv : x.mag / 2 ^ (x.exp - 1) = 2 ^ f.fracBits + x.frac := by
      rw [hm]
      exact Nat.mul_div_cancel _ (by positivity)
    ext
    · rfl
    · simp only [hstep]
      omega
    · simp only [hstep, hdiv, Nat.add_sub_cancel_left]

/-! ## Conversions -/

/-- The unit of `double` is `2 ^ 925` times smaller than the unit of `single`. -/
def unitShift : ℕ := 925

/-- One, in units of `double`. -/
def oneShift : ℕ := 1074

/-- Widen: exact on finite data; an infinity or a NaN keeps its sign and the top of
its fraction. -/
def widen (x : Datum single) : Datum double :=
  if x.Finite then pack double x.neg (x.mag * 2 ^ unitShift)
  else ⟨x.neg, double.expMax, x.frac * 2 ^ 29, le_rfl, by
    have h : x.frac < 2 ^ 23 := x.frac_lt
    show x.frac * 2 ^ 29 < 2 ^ 52
    omega⟩

/-- Narrow with rounding to nearest; a NaN is made quiet. -/
def narrow (x : Datum double) : Datum single :=
  if x.Finite then pack single x.neg (roundMag single.fracBits x.mag unitShift)
  else if x.frac = 0 then infinity single x.neg
  else ⟨x.neg, single.expMax, (x.frac / 2 ^ 29) % 2 ^ 22 + 2 ^ 22, le_rfl, by
    show (x.frac / 2 ^ 29) % 2 ^ 22 + 2 ^ 22 < 2 ^ 23
    omega⟩

/-- The nearest `double` to an integer. -/
def ofInt (i : ℤ) : Datum double :=
  pack double (i < 0) (roundMag double.fracBits (i.natAbs * 2 ^ oneShift) 0)

/-- Truncation towards zero. Out of range it is undefined in C; here `0` stands for
that. -/
def toInt (x : Datum double) : ℤ :=
  if x.Finite then
    if x.neg then -((x.mag / 2 ^ oneShift : ℕ) : ℤ) else ((x.mag / 2 ^ oneShift : ℕ) : ℤ)
  else 0

/-- A scaled magnitude fits when its leading bit stays in range. -/
theorem fits_of_lt {n k : ℕ} (hn : n < 2 ^ k) (hk : k ≤ f.fracBits + f.expMax - 2)
    (h2 : 2 ≤ f.expMax) : Fits f n := by
  rcases Nat.eq_zero_or_pos n with rfl | hpos
  · simp [Fits, step]
    omega
  · have : n.log2 < k := (Nat.log2_lt (by omega)).mpr hn
    simp only [Fits, step]
    omega

/-- Integers up to `2 ^ 53` survive the trip through `double`. -/
theorem toInt_ofInt {i : ℤ} (h : i.natAbs ≤ 2 ^ 53) : toInt (ofInt i) = i := by
  have hrep : Representable double.fracBits (i.natAbs * 2 ^ oneShift) := by
    rcases Nat.lt_or_eq_of_le h with h | h
    · exact (representable_of_lt h).mul_pow _
    · rw [h]
      exact Representable.mul_pow ⟨1, 53, by decide, by decide⟩ _
  have hfit : Fits double (i.natAbs * 2 ^ oneShift) := by
    refine fits_of_lt (k := 54 + oneShift) ?_ (by decide) (by decide)
    rw [pow_add]
    exact Nat.mul_lt_mul_of_pos_right (by omega) (by positivity)
  have hround := roundMag_exact hrep 0
  rw [pow_zero, mul_one] at hround
  obtain ⟨hm, hneg, hfin⟩ : (pack double (decide (i < 0)) (i.natAbs * 2 ^ oneShift)).mag =
      i.natAbs * 2 ^ oneShift ∧ _ := mag_pack hrep hfit
  have hdiv : i.natAbs * 2 ^ oneShift / 2 ^ oneShift = i.natAbs :=
    Nat.mul_div_cancel _ (by positivity)
  rw [toInt, ofInt, hround, if_pos hfin, hm, hneg, hdiv]
  by_cases hi : i < 0
  · rw [if_pos (by simpa using hi)]
    omega
  · rw [if_neg (by simpa using hi)]
    omega

/-- A finite magnitude of `single` is below `2 ^ 278` of its units. -/
theorem mag_single_lt {x : Datum single} (hx : x.Finite) : x.mag < 2 ^ 278 := by
  have hf : x.frac < 2 ^ 23 := x.frac_lt
  have he : x.exp < 255 := hx
  unfold Datum.mag
  split
  · exact hf.trans (pow_lt_pow_right₀ (by decide) (by decide))
  · have hpow : 2 ^ (x.exp - 1) ≤ 2 ^ 253 := Nat.pow_le_pow_right (by decide) (by omega)
    calc (2 ^ single.fracBits + x.frac) * 2 ^ (x.exp - 1)
        ≤ (2 ^ single.fracBits + x.frac) * 2 ^ 253 := Nat.mul_le_mul_left _ hpow
      _ < 2 ^ 24 * 2 ^ 253 :=
        Nat.mul_lt_mul_of_pos_right (by show 2 ^ 23 + x.frac < 2 ^ 24; omega) (by positivity)
      _ ≤ 2 ^ 278 := by
        rw [← pow_add]
        exact pow_le_pow_right₀ (by decide) (by decide)

theorem widen_spec {x : Datum single} (hx : x.Finite) :
    (widen x).mag = x.mag * 2 ^ unitShift ∧ (widen x).neg = x.neg ∧ (widen x).Finite := by
  rw [widen, if_pos hx]
  have hrep : Representable double.fracBits (x.mag * 2 ^ unitShift) := by
    obtain ⟨c, s, hc, hm⟩ := x.mag_representable
    have hc' : c < 2 ^ (double.fracBits + 1) :=
      lt_of_lt_of_le hc (Nat.pow_le_pow_right (by decide) (by decide))
    exact Representable.mul_pow ⟨c, s, hc', hm⟩ _
  refine mag_pack hrep (fits_of_lt (k := 278 + unitShift) ?_ (by decide) (by decide))
  rw [pow_add]
  exact Nat.mul_lt_mul_of_pos_right (mag_single_lt hx) (by positivity)

/-- Widening is exact, so narrowing undoes it. -/
theorem narrow_widen {x : Datum single} (hx : x.Finite) : narrow (widen x) = x := by
  obtain ⟨hm, hneg, hfin⟩ := widen_spec hx
  rw [narrow, if_pos hfin, hm, hneg, roundMag_exact x.mag_representable, pack_mag hx]

/-! ## Bytes -/

/-- The datum as one natural number: sign, exponent, fraction from the top. -/
def Datum.toNat (x : Datum f) : ℕ :=
  (x.neg.toNat * 2 ^ f.expBits + x.exp) * 2 ^ f.fracBits + x.frac

/-- The datum with the given bits; higher bits are ignored. -/
def ofNat (f : Format) (n : ℕ) : Datum f where
  neg := n / 2 ^ f.fracBits / 2 ^ f.expBits % 2 = 1
  exp := n / 2 ^ f.fracBits % 2 ^ f.expBits
  frac := n % 2 ^ f.fracBits
  exp_le := Nat.le_sub_one_of_lt (Nat.mod_lt _ (by positivity))
  frac_lt := Nat.mod_lt _ (by positivity)

theorem ofNat_toNat (x : Datum f) : ofNat f x.toNat = x := by
  have hfrac := x.frac_lt
  have hexp : x.exp < 2 ^ f.expBits := by
    have := x.exp_le
    have hpos : 0 < 2 ^ f.expBits := by positivity
    unfold Format.expMax at this
    omega
  have hq : x.toNat / 2 ^ f.fracBits = x.neg.toNat * 2 ^ f.expBits + x.exp := by
    rw [Datum.toNat, mul_comm, Nat.mul_add_div (by positivity), Nat.div_eq_of_lt hfrac, add_zero]
  ext
  · simp only [ofNat, hq]
    rw [mul_comm, Nat.mul_add_div (by positivity), Nat.div_eq_of_lt hexp]
    cases x.neg <;> simp
  · simp only [ofNat, hq]
    rw [Nat.mul_add_mod', Nat.mod_eq_of_lt hexp]
  · simp only [ofNat, Datum.toNat]
    rw [Nat.mul_add_mod', Nat.mod_eq_of_lt hfrac]

theorem Datum.toNat_lt (x : Datum f) : x.toNat < 2 ^ (1 + f.expBits + f.fracBits) := by
  have hfrac := x.frac_lt
  have hexp : x.exp < 2 ^ f.expBits := by
    have := x.exp_le
    have hpos : 0 < 2 ^ f.expBits := by positivity
    unfold Format.expMax at this
    omega
  have hhi : x.neg.toNat * 2 ^ f.expBits + x.exp + 1 ≤ 2 ^ (1 + f.expBits) := by
    rw [pow_add, pow_one]
    cases x.neg <;> simp <;> omega
  calc x.toNat < (x.neg.toNat * 2 ^ f.expBits + x.exp + 1) * 2 ^ f.fracBits := by
        rw [Datum.toNat, Nat.add_mul _ 1, one_mul]
        exact Nat.add_lt_add_left hfrac _
    _ ≤ 2 ^ (1 + f.expBits) * 2 ^ f.fracBits := Nat.mul_le_mul_right _ hhi
    _ = 2 ^ (1 + f.expBits + f.fracBits) := by rw [← pow_add]

end BinaryFloat
