import Mathlib.Algebra.Group.Nat.Defs
import Mathlib.Tactic.Common
import WideColumn.Pool.Config

/-!
# Pauses between attempts

The pause after a failed attempt is the base pause, doubled with every attempt, up to the longest
pause. The factor has 32 bits. From attempt 32 on it is no power of two but the largest word, so the
pause stops growing there even if the longest pause is still far away.

- `nanos_backoff`: the pause after any attempt;
- `backoff_le_maxBackoff`, `backoff_mono`: it never exceeds the longest pause and never shrinks;
- `backoff_doubles`: these together, and after which attempts it is the doubled pause;
- `backoff_below_doubled`: settings under which it falls short of that.
-/

namespace WideColumn

/-- The whole seconds of a duration fit in 64 bits. -/
def Duration.Fits (d : Duration) : Prop := d.seconds < UInt64.size

instance (d : Duration) : Decidable d.Fits := inferInstanceAs (Decidable (d.seconds < UInt64.size))

namespace PoolConfig

/-- A multiple of a duration that no duration can hold is longer than any duration, so the longest
pause may stand for it. -/
theorem nanos_min_mul? {longest : Duration} (hlongest : longest.Fits) (d : Duration)
    (factor : Nat) :
    (((d.mul? factor).getD longest).min longest).nanos = min (d.nanos * factor) longest.nanos := by
  rw [Duration.mul?]
  split
  · rfl
  · next hover =>
    have hlonger : longest.nanos ≤ d.nanos * factor := by
      rw [Duration.Fits, Duration.seconds] at hlongest
      omega
    rw [Option.getD_none, Nat.min_eq_right hlonger]
    exact Nat.min_self longest.nanos

/-! ## The factor -/

theorem backoffFactor_of_lt {attempt : Nat} (h : attempt < 32) :
    backoffFactor attempt = 2 ^ attempt := by
  rw [backoffFactor, if_pos h, Nat.one_shiftLeft]

private theorem backoffFactor_of_le {attempt : Nat} (h : 32 ≤ attempt) :
    backoffFactor attempt = UInt32.size - 1 :=
  if_neg (Nat.not_lt.2 h)

/-- Powers of two that 32 bits can hold are smaller than the largest word, all others are larger. -/
theorem backoffFactor_eq (attempt : Nat) :
    backoffFactor attempt = min (2 ^ attempt) (UInt32.size - 1) := by
  rcases Nat.lt_or_ge attempt 32 with hword | hover
  · have hpow : 2 ^ attempt ≤ 2 ^ 31 := Nat.pow_le_pow_right Nat.two_pos (by omega)
    rw [backoffFactor_of_lt hword, Nat.min_eq_left (Nat.le_trans hpow (by decide))]
  · have hpow : 2 ^ 32 ≤ 2 ^ attempt := Nat.pow_le_pow_right Nat.two_pos hover
    rw [backoffFactor_of_le hover, Nat.min_eq_right (Nat.le_trans (by decide) hpow)]

private theorem backoffFactor_mono {attempt later : Nat} (h : attempt ≤ later) :
    backoffFactor attempt ≤ backoffFactor later := by
  have hpow : 2 ^ attempt ≤ 2 ^ later := Nat.pow_le_pow_right Nat.two_pos h
  rw [backoffFactor_eq, backoffFactor_eq]
  omega

/-! ## The pause -/

variable {c : PoolConfig}

theorem nanos_backoff (hmax : c.maxBackoff.Fits) (attempt : Nat) :
    (c.backoff attempt).nanos =
      min (c.baseBackoff.nanos * backoffFactor attempt) c.maxBackoff.nanos :=
  nanos_min_mul? hmax c.baseBackoff (backoffFactor attempt)

theorem backoff_le_maxBackoff (hmax : c.maxBackoff.Fits) (attempt : Nat) :
    (c.backoff attempt).nanos ≤ c.maxBackoff.nanos := by
  rw [nanos_backoff hmax]
  exact Nat.min_le_right _ _

theorem backoff_mono (hmax : c.maxBackoff.Fits) {attempt later : Nat} (h : attempt ≤ later) :
    (c.backoff attempt).nanos ≤ (c.backoff later).nanos := by
  have hlonger : c.baseBackoff.nanos * backoffFactor attempt ≤
      c.baseBackoff.nanos * backoffFactor later :=
    Nat.mul_le_mul_left _ (backoffFactor_mono h)
  rw [nanos_backoff hmax, nanos_backoff hmax]
  omega

/-- Once the factor has stopped growing, the pause is the doubled one only if there is nothing to
double or the longest pause is reached. -/
theorem nanos_backoff_eq_doubled_iff (hmax : c.maxBackoff.Fits) {attempt : Nat} (h : 32 ≤ attempt) :
    (c.backoff attempt).nanos = min (c.baseBackoff.nanos * 2 ^ attempt) c.maxBackoff.nanos ↔
      c.baseBackoff.nanos = 0 ∨
        c.maxBackoff.nanos ≤ c.baseBackoff.nanos * (UInt32.size - 1) := by
  have hpow : UInt32.size ≤ 2 ^ attempt := Nat.pow_le_pow_right Nat.two_pos h
  rw [nanos_backoff hmax, backoffFactor_of_le h]
  rcases Nat.eq_zero_or_pos c.baseBackoff.nanos with hzero | hpos
  · simp [hzero]
  · have hless : c.baseBackoff.nanos * (UInt32.size - 1) < c.baseBackoff.nanos * 2 ^ attempt :=
      Nat.mul_lt_mul_of_pos_left (Nat.lt_of_lt_of_le (by decide) hpow) hpos
    omega

/-- The pause after a failed attempt, counted from zero, is the base pause, doubled that often and
cut at the longest pause, as long as the attempt is below 32. Behind that it is so only if the base
pause is zero or the longest pause is reached, for the factor is the largest word. The pause never
exceeds the longest one, and it never shrinks from one attempt to a later one. -/
theorem backoff_doubles (hmax : c.maxBackoff.Fits) (attempt : Nat) :
    (c.backoff attempt).nanos =
        min (c.baseBackoff.nanos * min (2 ^ attempt) (UInt32.size - 1)) c.maxBackoff.nanos ∧
      ((c.backoff attempt).nanos = min (c.baseBackoff.nanos * 2 ^ attempt) c.maxBackoff.nanos ↔
        attempt < 32 ∨ c.baseBackoff.nanos = 0 ∨
          c.maxBackoff.nanos ≤ c.baseBackoff.nanos * (UInt32.size - 1)) ∧
      (c.backoff attempt).nanos ≤ c.maxBackoff.nanos ∧
      ∀ later, attempt ≤ later → (c.backoff attempt).nanos ≤ (c.backoff later).nanos := by
  refine ⟨?_, ?_, backoff_le_maxBackoff hmax attempt, fun later => backoff_mono hmax⟩
  · rw [nanos_backoff hmax, backoffFactor_eq]
  · -- the factor doubles up to 2 ^ 31, and after that it is the largest word
    rcases Nat.lt_or_ge attempt 32 with hword | hover
    · have hdoubled : (c.backoff attempt).nanos =
          min (c.baseBackoff.nanos * 2 ^ attempt) c.maxBackoff.nanos := by
        rw [nanos_backoff hmax, backoffFactor_of_lt hword]
      exact iff_of_true hdoubled (.inl hword)
    · rw [nanos_backoff_eq_doubled_iff hmax hover, or_iff_right (Nat.not_lt.2 hover)]

/-- Pauses from a millisecond to a year. -/
def patient : PoolConfig :=
  { PoolConfig.default with baseBackoff := .ofMillis 1, maxBackoff := .ofMillis 31536000000 }

/-- The last attempt after which the pause is the doubled one, three and a half weeks. -/
theorem backoff_doubles_patient :
    patient.maxBackoff.Fits ∧
      (patient.backoff 31).nanos =
        min (patient.baseBackoff.nanos * 2 ^ 31) patient.maxBackoff.nanos ∧
      patient.backoff 31 = .ofMillis 2147483648 ∧
      (patient.backoff 31).nanos ≤ (patient.backoff 40).nanos := by
  have hmax : patient.maxBackoff.Fits := by decide
  obtain ⟨-, hdoubled, -, hgrows⟩ := backoff_doubles hmax 31
  exact ⟨hmax, hdoubled.2 (.inl (by decide)), by decide +kernel, hgrows 40 (by decide)⟩

/-- The first pause that is not the doubled one, although the longest pause is not reached: it is
one millisecond short. -/
theorem backoff_below_doubled :
    (patient.backoff 32).nanos = (Duration.ofMillis 4294967295).nanos ∧
      min (patient.baseBackoff.nanos * 2 ^ 32) patient.maxBackoff.nanos =
        (Duration.ofMillis 4294967296).nanos ∧
      (patient.backoff 32).nanos ≠
        min (patient.baseBackoff.nanos * 2 ^ 32) patient.maxBackoff.nanos := by
  decide +kernel

end PoolConfig

end WideColumn
