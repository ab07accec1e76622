import Mathlib.Algebra.Order.Group.Nat
import Mathlib.Tactic.SplitIfs
import Taskio.Wheel.Hierarchy

/-!
# The arithmetic of the eight wheels

Each wheel's resolution is one revolution of the wheel below it, so wheel `k` stands at
`n / wheelRes k` when the finest wheel has made `n` ticks. A timer with expiry time `e` that wheel
`k` holds is in bucket `e / wheelRes k % wheelLen k`, less than one revolution ahead (on the last
wheel: at any distance ahead). This file has the arithmetic of that statement, `Placed`:

* `placed_add` — the wheel that a delay selects can hold the timer
* `Placed.advance` — it stays so when the wheel's next bucket is another
* `Placed.res_dvd` — a timer of the next bucket that is not due now goes to a wheel that ticks now
  too
-/

namespace Taskio

/-! ## The two tables -/

def wheelRes (k : Nat) : Nat := resolutions.getD k 0

def wheelLen (k : Nat) : Nat := lengths.getD k 0

theorem wheelRes_zero : wheelRes 0 = 1 := rfl

/-- The tables agree: one revolution of a wheel is one tick of the next. -/
theorem wheelRes_succ : ∀ k < 7, wheelRes (k + 1) = wheelRes k * wheelLen k := by decide

theorem wheelRes_pos : ∀ k < 8, 0 < wheelRes k := by decide

theorem wheelLen_pos : ∀ k < 8, 0 < wheelLen k := by decide

theorem wheelRes_dvd : ∀ k < 8, ∀ j ≤ k, wheelRes j ∣ wheelRes k := by decide

theorem wheelRes_le {j k : Nat} (hk : k < 8) (h : j ≤ k) : wheelRes j ≤ wheelRes k :=
  Nat.le_of_dvd (wheelRes_pos k hk) (wheelRes_dvd k hk j h)

/-- The number of milliseconds after which the last wheel has made one revolution. -/
def wheelSpan : Nat := wheelRes 7 * wheelLen 7

theorem wheelSpan_eq : wheelSpan = 4 * 31536000000 := rfl

theorem findWheel_lt (d : Nat) : findWheel d < 8 := by
  unfold findWheel
  simp only
  split_ifs <;> omega

/-- `_find_wheel` takes the coarsest wheel whose resolution the delay reaches. -/
theorem wheelRes_findWheel_le {d : Nat} (h : 0 < d) : wheelRes (findWheel d) ≤ d := by
  unfold findWheel
  simp only
  split_ifs <;> simp [wheelRes, resolutions] <;> omega

theorem lt_wheelRes_findWheel (d : Nat) (h : findWheel d < 7) :
    d < wheelRes (findWheel d + 1) := by
  unfold findWheel at h ⊢
  simp only at h ⊢
  split_ifs at h ⊢ <;> simp [wheelRes, resolutions] <;> omega

theorem findWheel_lt_of_lt {d k : Nat} (hd : 0 < d) (h : d < wheelRes k) : findWheel d < k := by
  by_contra hle
  have h1 : wheelRes k ≤ wheelRes (findWheel d) :=
    wheelRes_le (findWheel_lt d) (Nat.le_of_not_lt hle)
  have h2 := wheelRes_findWheel_le hd
  omega

/-- The wheel of a delay between two resolutions. -/
theorem findWheel_eq {d k : Nat} (hk : k < 8) (hd : 0 < d) (h1 : wheelRes k ≤ d)
    (h2 : k < 7 → d < wheelRes (k + 1)) : findWheel d = k := by
  apply Nat.le_antisymm
  · by_cases hk7 : k < 7
    · exact Nat.lt_succ_iff.mp (findWheel_lt_of_lt hd (h2 hk7))
    · have := findWheel_lt d
      omega
  · by_contra hlt
    have h3 := lt_wheelRes_findWheel d (by omega)
    have h4 : wheelRes (findWheel d + 1) ≤ wheelRes k := wheelRes_le hk (by omega)
    omega

/-! ## Where a timer belongs -/

/-- Wheel `k` at tick `T` holds `t` in bucket `b`. -/
structure Placed (T k b : Nat) (t : Timer) : Prop where
  bucket : t.expiryTime / wheelRes k % wheelLen k = b
  ahead : T < t.expiryTime / wheelRes k
  within : k < 7 → t.expiryTime / wheelRes k < T + wheelLen k
  fits : t.expiryTime < 2 ^ 64

/-- The expiry time that `taskio_wheel_timer_add` computes is one the wheel can hold. -/
theorem placed_add {n d k : Nat} (hd : 0 < d) (hk : findWheel d = k) (t : Timer)
    (he : t.expiryTime = n / wheelRes k * wheelRes k + d) (hfit : t.expiryTime < 2 ^ 64) :
    Placed (n / wheelRes k) k (t.expiryTime / wheelRes k % wheelLen k) t := by
  have hk8 : k < 8 := hk ▸ findWheel_lt d
  have hpos := wheelRes_pos k hk8
  have hdiv : t.expiryTime / wheelRes k = n / wheelRes k + d / wheelRes k := by
    rw [he, Nat.add_comm, Nat.add_mul_div_right _ _ hpos, Nat.add_comm]
  refine ⟨rfl, ?_, ?_, hfit⟩
  · have : 0 < d / wheelRes k := Nat.div_pos (hk ▸ wheelRes_findWheel_le hd) hpos
    omega
  · intro hk7
    have hlt : d < wheelRes (k + 1) := hk ▸ lt_wheelRes_findWheel d (hk ▸ hk7)
    rw [wheelRes_succ k hk7] at hlt
    have : d / wheelRes k < wheelLen k := Nat.div_lt_of_lt_mul hlt
    omega

/-- Within one revolution only one tick has a given bucket. -/
theorem eq_of_mod_eq_within {a x m : Nat} (h1 : a ≤ x) (h2 : x < a + m) (h : x % m = a % m) :
    x = a := by
  have hsub : (x - a) % m = 0 := Nat.sub_mod_eq_zero_of_mod_eq h
  rw [Nat.mod_eq_of_lt (by omega)] at hsub
  omega

/-- A timer is not due before the tick that reaches its bucket. -/
theorem Placed.now_lt {n k b : Nat} {t : Timer} (h : Placed (n / wheelRes k) k b t) :
    n < t.expiryTime := by
  by_contra hle
  have := Nat.div_le_div_right (c := wheelRes k) (Nat.le_of_not_lt hle)
  have := h.ahead
  omega

/-- The remaining delay is less than a revolution. -/
theorem Placed.remaining_lt {n k b : Nat} {t : Timer} (hk : k < 7)
    (h : Placed (n / wheelRes k) k b t) : t.expiryTime - n < wheelRes (k + 1) := by
  have hpos := wheelRes_pos k (by omega)
  have h1 : t.expiryTime < wheelRes k * (n / wheelRes k + wheelLen k) := by
    have := Nat.lt_mul_div_succ t.expiryTime hpos
    calc t.expiryTime < wheelRes k * (t.expiryTime / wheelRes k + 1) := this
      _ ≤ wheelRes k * (n / wheelRes k + wheelLen k) :=
        Nat.mul_le_mul_left _ (h.within hk)
  have h2 : wheelRes k * (n / wheelRes k) ≤ n := Nat.mul_div_le n _
  have h3 := h.now_lt
  rw [wheelRes_succ k hk]
  rw [Nat.mul_add] at h1
  omega

/-- The timers that the tick does not reach are one tick nearer. -/
theorem Placed.advance {T k b : Nat} {t : Timer} (h : Placed T k b t)
    (hb : b ≠ (T + 1) % wheelLen k) : Placed (T + 1) k b t := by
  refine ⟨h.bucket, ?_, fun hk => by have := h.within hk; omega, h.fits⟩
  have hne : t.expiryTime / wheelRes k ≠ T + 1 := by
    intro he
    exact hb (by rw [← h.bucket, he])
  have := h.ahead
  omega

section Drain

variable {n k : Nat} {t : Timer}

/-- If it is due later, the wheel of its remaining delay ticks now too. -/
theorem Placed.res_dvd (hk : k < 8) (hdvd : wheelRes k ∣ n + 1)
    (h : Placed (n / wheelRes k) k ((n / wheelRes k + 1) % wheelLen k) t)
    (hlate : n + 1 < t.expiryTime) :
    findWheel (t.expiryTime - (n + 1)) ≤ k ∧
      wheelRes (findWheel (t.expiryTime - (n + 1))) ∣ n + 1 := by
  have hle : findWheel (t.expiryTime - (n + 1)) ≤ k := by
    by_cases hk7 : k < 7
    · -- within one revolution only the tick itself has this bucket
      have heq : t.expiryTime / wheelRes k = n / wheelRes k + 1 :=
        eq_of_mod_eq_within h.ahead (by have := h.within hk7; omega) h.bucket
      have hpos := wheelRes_pos k hk
      have hlt : t.expiryTime < wheelRes k * (n / wheelRes k + 1 + 1) := by
        rw [← heq]
        exact Nat.lt_mul_div_succ _ hpos
      have hn : wheelRes k * (n / wheelRes k + 1) = n + 1 := by
        rw [← Nat.succ_div_of_dvd hdvd]
        exact Nat.mul_div_cancel' hdvd
      rw [Nat.mul_add, hn] at hlt
      exact Nat.le_of_lt (findWheel_lt_of_lt (by omega) (by omega))
    · have := findWheel_lt (t.expiryTime - (n + 1))
      omega
  exact ⟨hle, Nat.dvd_trans (wheelRes_dvd k hk _ hle) hdvd⟩

/-- A rescheduled timer is placed as one added now with the remaining delay. -/
theorem placed_reschedule (hlate : n + 1 < t.expiryTime) {j : Nat}
    (hj : findWheel (t.expiryTime - (n + 1)) = j) (hdvd : wheelRes j ∣ n + 1)
    (hfit : t.expiryTime < 2 ^ 64) :
    Placed ((n + 1) / wheelRes j) j (t.expiryTime / wheelRes j % wheelLen j) t := by
  refine placed_add (d := t.expiryTime - (n + 1)) (by omega) hj t ?_ hfit
  rw [Nat.div_mul_cancel hdvd]
  omega

end Drain

end Taskio
