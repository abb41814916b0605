import DurableTasks.Sdk.Temporal
import Mathlib.Algebra.Order.Archimedean.Basic
import Mathlib.Data.Rat.Floor
import Mathlib.Tactic.Positivity

/-!
The delays between the attempts of an activity. A product of the interval and
the coefficient is taken as exact; a product of two `int64`s wraps.
-/

namespace DurableTasks.Temporal

namespace RetryPolicy

def backoff (eff : RetryPolicy) : Nat → ℚ → Int
  | 0, interval => ⌊interval⌋
  | n + 1, interval =>
    if eff.maximumInterval ≤ interval * eff.backoffCoefficient then eff.maximumInterval
    else eff.backoff n (interval * eff.backoffCoefficient)

def nextInterval (p : RetryPolicy) (attempt : Int) : Int :=
  let eff := p.normalize
  let attempt := if attempt < 1 then 1 else attempt
  eff.backoff (attempt - 1).toNat eff.initialInterval

theorem backoff_eq {eff : RetryPolicy} (hc : 1 ≤ eff.backoffCoefficient) {x : ℚ} (hx : 0 ≤ x)
    (n : Nat) : eff.backoff (n + 1) x =
      ⌊min (eff.maximumInterval : ℚ) (x * eff.backoffCoefficient ^ (n + 1))⌋ := by
  induction n generalizing x with
  | zero =>
    simp only [backoff, zero_add, pow_one]
    split_ifs with hle
    · rw [min_eq_left hle, Int.floor_intCast]
    · rw [min_eq_right (le_of_not_ge hle)]
  | succ n ih =>
    rw [backoff]
    split_ifs with hle
    · have hpow : 1 ≤ eff.backoffCoefficient ^ (n + 1) := one_le_pow₀ hc
      rw [pow_succ', ← mul_assoc, min_eq_left, Int.floor_intCast]
      exact hle.trans (le_mul_of_one_le_right (by positivity) hpow)
    · rw [ih (by positivity), mul_assoc, ← pow_succ']

end RetryPolicy

/-- The policy with its defaults filled in, computed without overflow. -/
def filled (rp : Option RetryPolicyJSON) : RetryPolicy :=
  let rp := rp.getD {}
  let initial :=
    if rp.initialIntervalMs ≤ 0 then RetryPolicy.second else rp.initialIntervalMs * 1000000
  { initialInterval := initial
    backoffCoefficient := if rp.backoffCoefficient < 1 then 2 else rp.backoffCoefficient
    maximumInterval :=
      if rp.maximumIntervalMs ≤ 0 then 100 * initial else rp.maximumIntervalMs * 1000000 }

def wanted (rp : Option RetryPolicyJSON) (n : Nat) : ℚ :=
  min ((filled rp).maximumInterval : ℚ)
    ((filled rp).initialInterval * (filled rp).backoffCoefficient ^ (n - 1))

structure Backs (rp : Option RetryPolicyJSON) : Prop where
  delay : ∀ n : Nat, 1 ≤ n → (effectiveRetryPolicy rp).nextInterval n = ⌊wanted rp n⌋
  pos : ∀ n : Nat, 1 ≤ n → 0 < (effectiveRetryPolicy rp).nextInterval n
  le : ∀ n : Nat, 1 ≤ n →
    (effectiveRetryPolicy rp).nextInterval n ≤ (filled rp).maximumInterval
  mono : ∀ m n : Nat, 1 ≤ m → m ≤ n →
    (effectiveRetryPolicy rp).nextInterval m ≤ (effectiveRetryPolicy rp).nextInterval n

def firstDelay (rp : Option RetryPolicyJSON) : Int :=
  let initial := wrap ((rp.getD {}).initialIntervalMs * 1000000)
  if initial ≤ 0 then RetryPolicy.second else initial

def laterBound (rp : Option RetryPolicyJSON) : Int :=
  let maximum := wrap ((rp.getD {}).maximumIntervalMs * 1000000)
  if maximum ≤ 0 then wrap (100 * firstDelay rp) else maximum

section Delays

variable {rp : Option RetryPolicyJSON}

theorem one_le_coefficient : 1 ≤ (filled rp).backoffCoefficient := by
  simp only [filled]
  split_ifs with hc
  · norm_num
  · exact not_lt.mp hc

theorem filled_pos : 0 < (filled rp).initialInterval ∧ 0 < (filled rp).maximumInterval := by
  simp only [filled, RetryPolicy.second]
  split_ifs <;> omega

theorem firstDelay_pos : 0 < firstDelay rp := by
  simp only [firstDelay, RetryPolicy.second]
  split_ifs <;> omega

/-- The policy is normalized twice. -/
theorem normalize_effective :
    (effectiveRetryPolicy rp).normalize.initialInterval = firstDelay rp ∧
    (effectiveRetryPolicy rp).normalize.backoffCoefficient = (filled rp).backoffCoefficient ∧
    (effectiveRetryPolicy rp).normalize.maximumInterval = laterBound rp := by
  cases rp with
  | none =>
    refine ⟨rfl, ?_, rfl⟩
    simp [effectiveRetryPolicy, RetryPolicy.normalize, filled]
  | some rp =>
    simp only [effectiveRetryPolicy, RetryPolicy.normalize, firstDelay, laterBound, filled,
      Option.getD_some, RetryPolicy.second]
    grind

theorem nextInterval_one : (effectiveRetryPolicy rp).nextInterval 1 = firstDelay rp := by
  simp [RetryPolicy.nextInterval, RetryPolicy.backoff, normalize_effective.1]

theorem nextInterval_add_two (n : Nat) : (effectiveRetryPolicy rp).nextInterval (n + 2 : Nat) =
    ⌊min (laterBound rp : ℚ) (firstDelay rp * (filled rp).backoffCoefficient ^ (n + 1))⌋ := by
  obtain ⟨hinitial, hcoef, hmax⟩ := @normalize_effective rp
  have hturns : ((n + 2 : Nat) - 1 : Int).toNat = n + 1 := by omega
  have hpos : (0 : ℚ) ≤ firstDelay rp := by exact_mod_cast firstDelay_pos.le
  rw [RetryPolicy.nextInterval, if_neg (by omega), hturns, hinitial,
    RetryPolicy.backoff_eq (hcoef ▸ one_le_coefficient) hpos, hcoef, hmax]

theorem wanted_one :
    ⌊wanted rp 1⌋ = min (filled rp).initialInterval (filled rp).maximumInterval := by
  rw [wanted, Nat.sub_self, pow_zero, mul_one, min_comm]
  exact_mod_cast Int.floor_intCast (min (filled rp).initialInterval (filled rp).maximumInterval)

/-- The other properties follow from the value of the delay. -/
theorem Backs.of_delay
    (h : ∀ n : Nat, 1 ≤ n → (effectiveRetryPolicy rp).nextInterval n = ⌊wanted rp n⌋) :
    Backs rp := by
  obtain ⟨hinitial, hmax⟩ := @filled_pos rp
  have hmono : ∀ m n : Nat, 1 ≤ m → m ≤ n → ⌊wanted rp m⌋ ≤ ⌊wanted rp n⌋ := by
    intro m n _ hle
    have hpow := pow_le_pow_right₀ (@one_le_coefficient rp) (Nat.sub_le_sub_right hle 1)
    have hpos : (0 : ℚ) ≤ (filled rp).initialInterval := by exact_mod_cast hinitial.le
    exact Int.floor_mono (min_le_min le_rfl (mul_le_mul_of_nonneg_left hpow hpos))
  refine ⟨h, fun n hn => ?_, fun n hn => ?_, fun m n hm hle => ?_⟩
  · rw [h n hn]
    have hfirst := hmono 1 n le_rfl hn
    rw [wanted_one] at hfirst
    omega
  · rw [h n hn]
    exact Int.floor_le_iff.mpr ((min_le_left _ _).trans_lt (by norm_num))
  · rw [h m hm, h n (hm.trans hle)]
    exact hmono m n hm hle

/-- A growing delay is at the bound in the end. -/
theorem exists_bound_le (hc : 1 < (filled rp).backoffCoefficient) {x : Int} (hx : 0 < x)
    (b : Int) : ∃ n, ∀ m ≥ n, (b : ℚ) ≤ x * (filled rp).backoffCoefficient ^ (m + 1) := by
  obtain ⟨n, hn⟩ := pow_unbounded_of_one_lt (b : ℚ) hc
  refine ⟨n, fun m hm => ?_⟩
  have hpow := pow_le_pow_right₀ hc.le (show n ≤ m + 1 by omega)
  have hone : (1 : ℚ) ≤ x := by exact_mod_cast hx
  calc (b : ℚ) ≤ (filled rp).backoffCoefficient ^ (m + 1) := hn.le.trans hpow
    _ ≤ x * (filled rp).backoffCoefficient ^ (m + 1) :=
      le_mul_of_one_le_left (by positivity) hone

/-- A bound on the first value makes no difference to a bounded later one. -/
theorem min_capped_mul {x b c : ℚ} (hx : 0 ≤ x) (hb : 0 ≤ b) (hc : 1 ≤ c) :
    min b (min x b * c) = min b (x * c) := by
  rcases le_total x b with hle | hle
  · rw [min_eq_left hle]
  · rw [min_eq_right hle, min_eq_left (le_mul_of_one_le_right hb hc),
      min_eq_left (hle.trans (le_mul_of_one_le_right hx hc))]

/-- The delays are as they should be exactly where the first one, as it wraps, is
the smaller of the two intervals, and the bound is the maximal interval or never
met. -/
theorem backs_iff (rp : Option RetryPolicyJSON) : Backs rp ↔
    firstDelay rp = min (filled rp).initialInterval (filled rp).maximumInterval ∧
      (laterBound rp = (filled rp).maximumInterval ∨
        (filled rp).backoffCoefficient = 1 ∧ firstDelay rp ≤ laterBound rp) := by
  have hone := @one_le_coefficient rp
  constructor
  · intro h
    have hfirst : firstDelay rp =
        min (filled rp).initialInterval (filled rp).maximumInterval := by
      rw [← wanted_one, ← h.delay 1 le_rfl, Nat.cast_one, nextInterval_one]
    refine ⟨hfirst, ?_⟩
    rcases hone.eq_or_lt with hc | hc
    · -- with a constant interval the second delay tells
      have hsecond := h.mono 1 2 le_rfl (by omega)
      rw [nextInterval_add_two 0, ← hc, Nat.cast_one, nextInterval_one, one_pow, mul_one,
        Int.le_floor] at hsecond
      exact .inr ⟨hc.symm, by exact_mod_cast hsecond.trans (min_le_left _ _)⟩
    · obtain ⟨n, hn⟩ := exists_bound_le hc firstDelay_pos (laterBound rp)
      obtain ⟨m, hm⟩ := exists_bound_le hc filled_pos.1 (filled rp).maximumInterval
      have hlate := h.delay (max n m + 2) (by omega)
      rw [nextInterval_add_two, min_eq_left (hn _ (le_max_left _ _)), wanted,
        show max n m + 2 - 1 = max n m + 1 by omega,
        min_eq_left (hm _ (le_max_right _ _)), Int.floor_intCast, Int.floor_intCast] at hlate
      exact .inl hlate
  · rintro ⟨hfirst, hbound⟩
    refine Backs.of_delay fun n hn => ?_
    obtain _ | _ | n := n
    · omega
    · rw [zero_add, Nat.cast_one, nextInterval_one, hfirst, wanted_one]
    · have hcap : (firstDelay rp : ℚ) =
          min ((filled rp).initialInterval : ℚ) (filled rp).maximumInterval := by
        exact_mod_cast hfirst
      rw [nextInterval_add_two, wanted, show n + 1 + 1 - 1 = n + 1 by omega]
      congr 1
      rcases hbound with hbound | ⟨hc, hle⟩
      · rw [hbound, hcap]
        exact min_capped_mul (by exact_mod_cast filled_pos.1.le)
          (by exact_mod_cast filled_pos.2.le) (one_le_pow₀ hone)
      · have hle : (firstDelay rp : ℚ) ≤ laterBound rp := by exact_mod_cast hle
        rw [hc, one_pow, mul_one, mul_one, min_eq_right hle, hcap, min_comm]

/-- The maximal interval is below the initial one, and the first delay is above
it. -/
theorem first_delay_above_maximum :
    let rp : RetryPolicyJSON := { initialIntervalMs := 1000, maximumIntervalMs := 100 }
    (effectiveRetryPolicy rp).nextInterval 1 = 1000 * 1000000 ∧
      (filled rp).maximumInterval = 100 * 1000000 ∧ ¬ Backs rp := by
  intro rp
  have hfirst : (effectiveRetryPolicy rp).nextInterval 1 = 1000 * 1000000 := by
    rw [nextInterval_one]
    decide
  have hmax : (filled rp).maximumInterval = 100 * 1000000 := by decide
  refine ⟨hfirst, hmax, fun h => ?_⟩
  have hle := h.le 1 le_rfl
  rw [Nat.cast_one, hfirst, hmax] at hle
  omega

end Delays

end DurableTasks.Temporal
