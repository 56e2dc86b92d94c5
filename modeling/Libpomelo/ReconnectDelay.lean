import Libpomelo.Client

/-!
# The delay of a reconnect

`pc_client_new_with_reconnect` precomputes the failure count from which on the delay is the
maximum, and `pc__client_reconnect` computes the delay of every failure before it, all in
`int`. The client model calls the latter with the settings that the former stores
(`reconnectBase`); an overflow is told apart from a value (`intExpr`).

* `nthDelay_eq` says what the code computes for the `n`-th failure in a row, and when.
* `onSchedule_iff` compares it with the documented schedule: with exponential backoff the
  counter is incremented before the shift, so every delay below the maximum is twice what it
  should be.
* `timerInRange_iff` is about the timer: the jitter is added after the clamp, and the
  milliseconds are an `int`.
-/

namespace Libpomelo

/-- The arguments of `pc_client_new_with_reconnect`, and the `int` that it makes of the
logarithms when backoff is exponential. -/
structure ReconnectArgs : Type where
  /-- `delay` -/
  delay : Int32
  /-- `delay_max` -/
  delayMax : Int32
  /-- `exp_backoff` -/
  expBackoff : Int32
  /-- `(int)log(1.0 * delay_max / delay) / log(2.0) + 1` as an `int` -/
  logQuotient : Int32
  deriving DecidableEq, Repr

/-- `pc_client_new_with_reconnect`; `none` is `NULL`. -/
def clientNewWithReconnect (a : ReconnectArgs) : Option ReconnectSettings :=
  if a.delay.toInt ≤ 0 ∨ a.delayMax.toInt ≤ 0 then none
  else some
    { reconnectDelay := a.delay.toInt
      reconnectDelayMax := a.delayMax.toInt
      enableExpBackoff := decide (a.expBackoff.toInt ≠ 0)
      maxReconnectsIncr :=
        if a.expBackoff.toInt = 0 then intExpr (Int.tdiv a.delayMax.toInt a.delay.toInt + 1)
        else some a.logQuotient.toInt }

/-- The timeout in milliseconds that `pc__client_reconnect` arms the timer with, from the delay
before the jitter and `rand()`; `none` is a division by zero or an overflow. -/
def reconnectTimeout (delay : ℤ) (rand : ℕ) : Option ℕ :=
  if delay = 0 then none
  else do
    let delay ← intExpr (Int.tmod rand delay + delay)
    let timeout ← intExpr (delay * 1000)
    -- `uv_timer_start` takes an unsigned 64 bit number
    pure (timeout % 2 ^ 64).toNat

/-- The counter `reconnects` after `n` failures in a row. -/
def reconnectsAfter : ℕ → Option ℕ
  | 0 => some 0
  | n + 1 => do
    let reconnects ← reconnectsAfter n
    if reconnects + 1 < 2 ^ 31 then some (reconnects + 1) else none

/-- The delay before the jitter for the `n`-th failure in a row. -/
def nthDelay (s : ReconnectSettings) (n : ℕ) : Option ℤ :=
  (reconnectsAfter n).bind (reconnectBase s)

/-- The timeout for the `n`-th failure in a row. -/
def nthTimeout (s : ReconnectSettings) (n rand : ℕ) : Option ℕ :=
  (nthDelay s n).bind (reconnectTimeout · rand)

/-! ## The documented schedule -/

/-- The schedule that `pomelo.h` gives for the `n`-th failure in a row. -/
def ReconnectArgs.schedule (a : ReconnectArgs) (n : ℕ) : ℤ :=
  if a.expBackoff.toInt = 0 then min (a.delay.toInt * n) a.delayMax.toInt
  else min (a.delay.toInt * 2 ^ (n - 1)) a.delayMax.toInt

/-- The delay for the `n`-th failure is the scheduled one, and no earlier delay is longer. -/
def OnSchedule (a : ReconnectArgs) (s : ReconnectSettings) (n : ℕ) : Prop :=
  nthDelay s n = some (a.schedule n) ∧
    ∀ m d, 1 ≤ m → m ≤ n → nthDelay s m = some d → d ≤ a.schedule n

/-- The timer for the `n`-th failure is armed with a positive time of at most `delay_max`. -/
def TimerInRange (a : ReconnectArgs) (s : ReconnectSettings) (n rand : ℕ) : Prop :=
  ∃ t, nthTimeout s n rand = some t ∧ 0 < t ∧ (t : ℤ) ≤ a.delayMax.toInt * 1000

/-! ## What the code computes -/

/-- Nothing overflows on the way to the delay for the `n`-th failure. -/
def ReconnectArgs.Fits (a : ReconnectArgs) (n : ℕ) : Prop :=
  n < 2 ^ 31 ∧
    if a.expBackoff.toInt = 0 then ¬ (a.delay.toInt = 1 ∧ a.delayMax.toInt = 2 ^ 31 - 1)
    else n < a.logQuotient.toInt → a.delay.toInt * 2 ^ n < 2 ^ 31

instance (a : ReconnectArgs) (n : ℕ) : Decidable (a.Fits n) :=
  inferInstanceAs (Decidable (n < 2 ^ 31 ∧
    if a.expBackoff.toInt = 0 then ¬ (a.delay.toInt = 1 ∧ a.delayMax.toInt = 2 ^ 31 - 1)
    else n < a.logQuotient.toInt → a.delay.toInt * 2 ^ n < 2 ^ 31))

/-- The delay for the `n`-th failure, in terms of the arguments. -/
def ReconnectArgs.clamped (a : ReconnectArgs) (n : ℕ) : ℤ :=
  if a.expBackoff.toInt = 0 then min (a.delay.toInt * n) a.delayMax.toInt
  else if n < a.logQuotient.toInt then min (a.delay.toInt * 2 ^ n) a.delayMax.toInt
  else a.delayMax.toInt

theorem intExpr_of_nonneg {x : ℤ} (h : 0 ≤ x) : intExpr x = if x < 2 ^ 31 then some x else none := by
  rw [intExpr]
  have hlow : -2 ^ 31 ≤ x := by omega
  simp only [hlow, true_and]

theorem clamp_eq (delay delayMax : ℤ) :
    (if delayMax < delay then delayMax else delay) = min delay delayMax := by
  rcases lt_or_ge delayMax delay with h | h
  · rw [if_pos h, min_eq_right h.le]
  · rw [if_neg h.not_gt, min_eq_left h]

theorem reconnectsAfter_eq (n : ℕ) : reconnectsAfter n = if n < 2 ^ 31 then some n else none := by
  induction n with
  | zero => rfl
  | succ n ih =>
    rw [reconnectsAfter, ih]
    by_cases hn : n < 2 ^ 31
    · rw [if_pos hn]
      rfl
    · rw [if_neg hn, if_neg (by omega)]
      rfl

section Delay

variable {a : ReconnectArgs} {s : ReconnectSettings} {n : ℕ}

/-- What the constructor accepts, and what it stores. -/
theorem clientNewWithReconnect_some (h : clientNewWithReconnect a = some s) :
    0 < a.delay.toInt ∧ 0 < a.delayMax.toInt ∧
      s = ⟨a.delay.toInt, a.delayMax.toInt, decide (a.expBackoff.toInt ≠ 0),
        if a.expBackoff.toInt = 0 then intExpr (Int.tdiv a.delayMax.toInt a.delay.toInt + 1)
        else some a.logQuotient.toInt⟩ := by
  rw [clientNewWithReconnect] at h
  split at h
  · exact absurd h (by simp)
  · next hpos =>
    obtain ⟨hdelay, hmax⟩ := not_or.mp hpos
    exact ⟨not_le.mp hdelay, not_le.mp hmax, (Option.some.inj h).symm⟩

/-- The cut-off of linear mode overflows for one pair of settings only. -/
theorem linearCutoff {delay delayMax : ℤ} (hdelay : 0 < delay) (hmax : 0 < delayMax)
    (hint : delayMax < 2 ^ 31) :
    intExpr (Int.tdiv delayMax delay + 1) =
      if delay = 1 ∧ delayMax = 2 ^ 31 - 1 then none else some (delayMax / delay + 1) := by
  have hquot : 0 ≤ delayMax / delay := Int.ediv_nonneg hmax.le hdelay.le
  rw [Int.tdiv_eq_ediv_of_nonneg hmax.le, intExpr_of_nonneg (by omega)]
  by_cases hone : delay = 1
  · rw [hone, Int.ediv_one]
    by_cases hfull : delayMax = 2 ^ 31 - 1
    · rw [if_neg (by omega), if_pos ⟨rfl, hfull⟩]
    · rw [if_pos (by omega), if_neg fun h => hfull h.2]
  · have hhalf : 2 * (delayMax / delay) ≤ delayMax := by
      calc 2 * (delayMax / delay) ≤ delay * (delayMax / delay) :=
            Int.mul_le_mul_of_nonneg_right (by omega) hquot
        _ ≤ delayMax := Int.mul_ediv_self_le hdelay.ne'
    rw [if_pos (by omega), if_neg fun h => hone h.1]

/-- Linear mode: the product stays in `int` up to the cut-off, and is no less than the maximum from
there on. -/
theorem reconnectBase_linear {delay delayMax : ℤ} (hdelay : 0 < delay) (hmax : 0 < delayMax)
    (hint : delayMax < 2 ^ 31) (n : ℕ) :
    reconnectBase ⟨delay, delayMax, false, some (delayMax / delay + 1)⟩ n =
      some (min (delay * n) delayMax) := by
  have hle : delay * (delayMax / delay) ≤ delayMax := Int.mul_ediv_self_le hdelay.ne'
  have hlt : delayMax < delay * (delayMax / delay) + delay := Int.lt_mul_ediv_self_add hdelay
  by_cases hcut : delayMax / delay + 1 ≤ (n : ℤ)
  · have hbig : delay * (delayMax / delay + 1) ≤ delay * n := Int.mul_le_mul_of_nonneg_left hcut hdelay.le
    rw [Int.mul_add, Int.mul_one] at hbig
    rw [min_eq_right (by omega)]
    simp [reconnectBase, hcut]
  · have hsmall : delay * n ≤ delay * (delayMax / delay) :=
      Int.mul_le_mul_of_nonneg_left (by omega) hdelay.le
    have hnonneg : 0 ≤ delay * n := Int.mul_nonneg hdelay.le (Int.natCast_nonneg n)
    have hfits : intExpr (delay * n) = some (delay * n) := by
      rw [intExpr_of_nonneg hnonneg, if_pos (by omega)]
    simp [reconnectBase, hcut, hfits, clamp_eq]

/-- Exponential mode, for any cut-off. -/
theorem reconnectBase_exp {delay : ℤ} (hdelay : 0 < delay) (delayMax cutoff : ℤ) (n : ℕ) :
    reconnectBase ⟨delay, delayMax, true, some cutoff⟩ n =
      if n < cutoff then
        if delay * 2 ^ n < 2 ^ 31 then some (min (delay * 2 ^ n) delayMax) else none
      else some delayMax := by
  by_cases hcut : (n : ℤ) < cutoff
  · rw [if_pos hcut]
    have hpow : (0 : ℤ) < 2 ^ n := by positivity
    have hshl : intShl delay n = if delay * 2 ^ n < 2 ^ 31 then some (delay * 2 ^ n) else none := by
      rw [intShl, intExpr_of_nonneg (Int.mul_nonneg hdelay.le hpow.le)]
      by_cases hwide : n < 32
      · rw [if_pos hwide]
      · -- a shift by 32 or more does not fit anyway
        have hbig : (2 : ℤ) ^ 32 ≤ 2 ^ n := by
          exact_mod_cast Nat.pow_le_pow_right (by decide) (not_lt.mp hwide)
        have hover : (2 : ℤ) ^ n ≤ delay * 2 ^ n := by
          calc (2 : ℤ) ^ n = 1 * 2 ^ n := (Int.one_mul _).symm
            _ ≤ delay * 2 ^ n := Int.mul_le_mul_of_nonneg_right hdelay hpow.le
        rw [if_neg hwide, if_neg (by omega)]
    by_cases hfits : delay * 2 ^ n < 2 ^ 31
    · rw [if_pos hfits] at hshl ⊢
      have hbelow : ¬ cutoff ≤ n := not_le.mpr hcut
      simp [reconnectBase, hbelow, hshl, clamp_eq]
    · rw [if_neg hfits] at hshl ⊢
      have hbelow : ¬ cutoff ≤ n := not_le.mpr hcut
      simp [reconnectBase, hbelow, hshl]
  · rw [if_neg hcut]
    have habove : cutoff ≤ n := not_lt.mp hcut
    simp [reconnectBase, habove]

/-- **What the code computes for the `n`-th failure in a row**, and when nothing overflows on the
way. -/
theorem nthDelay_eq (h : clientNewWithReconnect a = some s) (n : ℕ) :
    nthDelay s n = if a.Fits n then some (a.clamped n) else none := by
  obtain ⟨hdelay, hmax, rfl⟩ := clientNewWithReconnect_some h
  have hint := a.delayMax.toInt_lt
  rw [nthDelay, reconnectsAfter_eq]
  by_cases hn : n < 2 ^ 31
  · rw [if_pos hn, Option.bind_some]
    by_cases hexp : a.expBackoff.toInt = 0
    · have hbase := reconnectBase_linear hdelay hmax hint n
      rw [if_pos hexp, linearCutoff hdelay hmax hint]
      have hfits : a.Fits n ↔ ¬ (a.delay.toInt = 1 ∧ a.delayMax.toInt = 2 ^ 31 - 1) := by
        rw [ReconnectArgs.Fits, if_pos hexp]
        exact and_iff_right hn
      rw [ReconnectArgs.clamped, if_pos hexp]
      by_cases hspecial : a.delay.toInt = 1 ∧ a.delayMax.toInt = 2 ^ 31 - 1
      · rw [if_pos hspecial, if_neg fun hf => hfits.mp hf hspecial]
        rfl
      · rw [if_neg hspecial, if_pos (hfits.mpr hspecial)]
        simpa [hexp] using hbase
    · have hbase := reconnectBase_exp hdelay a.delayMax.toInt a.logQuotient.toInt n
      rw [if_neg hexp]
      have hfits : a.Fits n ↔
          (n < a.logQuotient.toInt → a.delay.toInt * 2 ^ n < 2 ^ 31) := by
        rw [ReconnectArgs.Fits, if_neg hexp]
        exact and_iff_right hn
      have hmode : decide (a.expBackoff.toInt ≠ 0) = true := decide_eq_true hexp
      rw [hmode, hbase, ReconnectArgs.clamped, if_neg hexp]
      by_cases hcut : (n : ℤ) < a.logQuotient.toInt
      · rw [if_pos hcut, if_pos hcut]
        by_cases hshift : a.delay.toInt * 2 ^ n < 2 ^ 31
        · rw [if_pos hshift, if_pos (hfits.mpr fun _ => hshift)]
        · rw [if_neg hshift, if_neg fun hf => hshift (hfits.mp hf hcut)]
      · rw [if_neg hcut, if_neg hcut, if_pos (hfits.mpr fun hlt => absurd hlt hcut)]
  · have hfits : ¬ a.Fits n := fun hf => hn hf.1
    rw [if_neg hn, if_neg hfits]
    rfl

/-! ## The schedule -/

/-- The delays never get shorter. -/
theorem ReconnectArgs.clamped_mono (hdelay : 0 < a.delay.toInt) {m : ℕ} (hle : m ≤ n) :
    a.clamped m ≤ a.clamped n := by
  have hcast : (m : ℤ) ≤ n := by exact_mod_cast hle
  rw [clamped, clamped]
  split
  · exact min_le_min_right _ (Int.mul_le_mul_of_nonneg_left hcast hdelay.le)
  · by_cases hn : (n : ℤ) < a.logQuotient.toInt
    · have hpow : (2 : ℤ) ^ m ≤ 2 ^ n := by exact_mod_cast Nat.pow_le_pow_right (by decide) hle
      rw [if_pos hn, if_pos (hcast.trans_lt hn)]
      exact min_le_min_right _ (Int.mul_le_mul_of_nonneg_left hpow hdelay.le)
    · rw [if_neg hn]
      split
      · exact min_le_right _ _
      · exact le_rfl

/-- The code follows the schedule without backoff; with it, only once the schedule has reached the
maximum. -/
theorem ReconnectArgs.clamped_eq_schedule_iff (hdelay : 0 < a.delay.toInt) (hn : 1 ≤ n) :
    a.clamped n = a.schedule n ↔
      (a.expBackoff.toInt ≠ 0 → a.delayMax.toInt ≤ a.delay.toInt * 2 ^ (n - 1)) := by
  rw [clamped, schedule]
  by_cases hexp : a.expBackoff.toInt = 0
  · rw [if_pos hexp, if_pos hexp]
    exact ⟨fun _ hne => absurd hexp hne, fun _ => rfl⟩
  · rw [if_neg hexp, if_neg hexp]
    obtain ⟨k, rfl⟩ : ∃ k, n = k + 1 := ⟨n - 1, by omega⟩
    have hpos : 0 < a.delay.toInt * 2 ^ k := Int.mul_pos hdelay (by positivity)
    -- the code shifts once too often
    have htwice : a.delay.toInt * 2 ^ (k + 1) = 2 * (a.delay.toInt * 2 ^ k) := by ring
    rw [Nat.add_sub_cancel, htwice]
    generalize a.delay.toInt * 2 ^ k = scheduled at hpos
    refine ⟨fun heq _ => ?_, fun hreached => ?_⟩
    · by_contra hnot
      rw [min_eq_left (not_le.mp hnot).le] at heq
      split at heq
      · rcases min_choice (2 * scheduled) a.delayMax.toInt with hmin | hmin <;> omega
      · omega
    · have hle := hreached hexp
      rw [min_eq_right hle, min_eq_right (by omega), ite_self]

/-- **The delay of the `n`-th failure in a row is the documented one exactly when** nothing
overflows and, with backoff, the schedule has reached the maximum by then. -/
theorem onSchedule_iff (h : clientNewWithReconnect a = some s) (hn : 1 ≤ n) :
    OnSchedule a s n ↔ a.Fits n ∧
      (a.expBackoff.toInt ≠ 0 → a.delayMax.toInt ≤ a.delay.toInt * 2 ^ (n - 1)) := by
  have hdelay := (clientNewWithReconnect_some h).1
  rw [← ReconnectArgs.clamped_eq_schedule_iff hdelay hn]
  constructor
  · rintro ⟨hnth, -⟩
    rw [nthDelay_eq h] at hnth
    by_cases hfits : a.Fits n
    · rw [if_pos hfits] at hnth
      exact ⟨hfits, Option.some.inj hnth⟩
    · rw [if_neg hfits] at hnth
      exact absurd hnth (by simp)
  · rintro ⟨hfits, heq⟩
    refine ⟨by rw [nthDelay_eq h, if_pos hfits, heq], fun m d _ hle hearlier => ?_⟩
    rw [nthDelay_eq h] at hearlier
    split at hearlier
    · rw [← Option.some.inj hearlier, ← heq]
      exact ReconnectArgs.clamped_mono hdelay hle
    · exact absurd hearlier (by simp)

/-- Two seconds, at most ten, no backoff: the sixth delay is on schedule. -/
theorem onSchedule_sixth : ∃ s, clientNewWithReconnect ⟨2, 10, 0, 0⟩ = some s ∧
    OnSchedule ⟨2, 10, 0, 0⟩ s 6 := by
  have hnew : clientNewWithReconnect ⟨2, 10, 0, 0⟩ = some ⟨2, 10, false, some 6⟩ := by decide
  exact ⟨_, hnew, (onSchedule_iff hnew (by decide)).mpr (by decide)⟩

/-- Two seconds, at most thirty, with backoff, where the logarithms give the cut-off 3: the first
delay is four seconds. -/
theorem not_onSchedule_first : ∃ s, clientNewWithReconnect ⟨2, 30, 1, 3⟩ = some s ∧
    nthDelay s 1 = some 4 ∧ ReconnectArgs.schedule ⟨2, 30, 1, 3⟩ 1 = 2 ∧
    ¬ OnSchedule ⟨2, 30, 1, 3⟩ s 1 := by
  have hnew : clientNewWithReconnect ⟨2, 30, 1, 3⟩ = some ⟨2, 30, true, some 3⟩ := by decide
  have hdelay : nthDelay ⟨2, 30, true, some 3⟩ 1 = some 4 := by decide
  have hschedule : ReconnectArgs.schedule ⟨2, 30, 1, 3⟩ 1 = 2 := by decide
  refine ⟨_, hnew, hdelay, hschedule, fun hon => ?_⟩
  have heq := hdelay.symm.trans hon.1
  rw [hschedule] at heq
  exact absurd heq (by decide)

/-! ## The timer -/

theorem ReconnectArgs.clamped_pos (hdelay : 0 < a.delay.toInt) (hmax : 0 < a.delayMax.toInt)
    (hn : 1 ≤ n) : 0 < a.clamped n := by
  have hcast : (0 : ℤ) < n := by exact_mod_cast hn
  rw [clamped]
  split
  · exact lt_min (Int.mul_pos hdelay hcast) hmax
  · split
    · exact lt_min (Int.mul_pos hdelay (by positivity)) hmax
    · exact hmax

/-- The jitter is less than the delay, and the milliseconds fit an `int` up to 2147483 seconds. -/
theorem reconnectTimeout_eq {delay : ℤ} (hpos : 0 < delay) (rand : ℕ) :
    reconnectTimeout delay rand =
      if rand % delay + delay ≤ 2147483 then some ((rand % delay + delay) * 1000).toNat else none := by
  have hjitter : 0 ≤ (rand : ℤ) % delay := Int.emod_nonneg _ hpos.ne'
  rw [reconnectTimeout, if_neg hpos.ne', Int.tmod_eq_emod_of_nonneg (Int.natCast_nonneg rand)]
  generalize (rand : ℤ) % delay = jitter at hjitter
  rw [intExpr_of_nonneg (by omega)]
  by_cases hfits : jitter + delay ≤ 2147483
  · have hsmall : (jitter + delay) * 1000 < 2 ^ 31 := by omega
    rw [if_pos (by omega), if_pos hfits, Option.bind_eq_bind, Option.bind_some,
      intExpr_of_nonneg (by omega), if_pos hsmall]
    exact congrArg (fun t => some (Int.toNat t)) (Int.emod_eq_of_lt (by omega) (by omega))
  · rw [if_neg hfits]
    split
    · rw [Option.bind_eq_bind, Option.bind_some, intExpr_of_nonneg (by omega), if_neg (by omega)]
      rfl
    · rfl

/-- **The timer of the `n`-th failure in a row is armed within the maximum exactly when** nothing
overflows on the way to the delay, the jitter leaves it within the maximum, and the milliseconds
fit an `int`. -/
theorem timerInRange_iff (h : clientNewWithReconnect a = some s) (hn : 1 ≤ n) (rand : ℕ) :
    TimerInRange a s n rand ↔ a.Fits n ∧
      rand % a.clamped n ≤ a.delayMax.toInt - a.clamped n ∧
      rand % a.clamped n + a.clamped n ≤ 2147483 := by
  obtain ⟨hdelay, hmax, -⟩ := clientNewWithReconnect_some h
  have hpos := ReconnectArgs.clamped_pos hdelay hmax hn
  have hjitter : 0 ≤ (rand : ℤ) % a.clamped n := Int.emod_nonneg _ hpos.ne'
  rw [TimerInRange, nthTimeout, nthDelay_eq h]
  by_cases hfits : a.Fits n
  · rw [if_pos hfits, Option.bind_some, reconnectTimeout_eq hpos]
    by_cases hmillis : rand % a.clamped n + a.clamped n ≤ 2147483
    · rw [if_pos hmillis]
      constructor
      · rintro ⟨t, ht, -, hle⟩
        have hval := Option.some.inj ht
        refine ⟨hfits, ?_, hmillis⟩
        omega
      · rintro ⟨-, hle, -⟩
        refine ⟨_, rfl, ?_, ?_⟩ <;> omega
    · rw [if_neg hmillis]
      constructor
      · rintro ⟨t, ht, -⟩
        exact absurd ht (by simp)
      · rintro ⟨-, -, hle⟩
        exact absurd hle hmillis
  · rw [if_neg hfits]
    constructor
    · rintro ⟨t, ht, -⟩
      exact absurd ht (by simp)
    · rintro ⟨hfits', -⟩
      exact absurd hfits' hfits

/-- Two seconds, at most ten: the first timer, with a jitter of a second. -/
theorem timerInRange_first : ∃ s, clientNewWithReconnect ⟨2, 10, 0, 0⟩ = some s ∧
    TimerInRange ⟨2, 10, 0, 0⟩ s 1 7 := by
  have hnew : clientNewWithReconnect ⟨2, 10, 0, 0⟩ = some ⟨2, 10, false, some 6⟩ := by decide
  exact ⟨_, hnew, (timerInRange_iff hnew (by decide) 7).mpr (by decide)⟩

/-- The same settings: the fifth timer is armed with eleven seconds. -/
theorem not_timerInRange_fifth : ∃ s, clientNewWithReconnect ⟨2, 10, 0, 0⟩ = some s ∧
    nthTimeout s 5 1 = some 11000 ∧ ¬ TimerInRange ⟨2, 10, 0, 0⟩ s 5 1 := by
  have hnew : clientNewWithReconnect ⟨2, 10, 0, 0⟩ = some ⟨2, 10, false, some 6⟩ := by decide
  have htimeout : nthTimeout ⟨2, 10, false, some 6⟩ 5 1 = some 11000 := by decide
  refine ⟨_, hnew, htimeout, ?_⟩
  rintro ⟨t, ht, -, hle⟩
  obtain rfl := Option.some.inj (htimeout.symm.trans ht)
  exact absurd hle (by decide)

end Delay

end Libpomelo
