import FeatureFlags.Sync.Backoff
import FeatureFlags.Text.Numeral

/-!
# Sync/Span — lengths of time as a clock keeps them

A `Span` is a number of nanoseconds whose whole seconds fit into 64 bits.  A sum that does not fit is
refused, and doubling stops at the greatest span.  `Span.wait?` is the wait before the next attempt of a
stream, reckoned in spans; `Backoff` reckons in milliseconds, without a limit.
-/

namespace FeatureFlags

namespace Span

/-- The greatest length of time, in nanoseconds. -/
def greatest : Nat := Numeral.greatest64 * 1000000000 + 999999999

end Span

/-- **A length of time.** -/
structure Span where
  nanos : Nat
  le_greatest : nanos ≤ Span.greatest
  deriving DecidableEq

namespace Span

def zero : Span := ⟨0, Nat.zero_le _⟩

theorem millis_le {ms : Nat} (h : ms ≤ Numeral.greatest64) : ms * 1000000 ≤ greatest :=
  Nat.le_trans (Nat.mul_le_mul_right 1000000 h) (by decide)

/-- A number of milliseconds that fits into 64 bits. -/
def ofMillis (ms : Nat) (h : ms ≤ Numeral.greatest64) : Span := ⟨ms * 1000000, millis_le h⟩

@[simp] theorem nanos_ofMillis {ms : Nat} (h : ms ≤ Numeral.greatest64) :
    (ofMillis ms h).nanos = ms * 1000000 := rfl

/-- The whole milliseconds, in 64 bits. -/
def millis (t : Span) : Nat := t.nanos / 1000000 % (Numeral.greatest64 + 1)

theorem millis_ofMillis {ms : Nat} (h : ms ≤ Numeral.greatest64) : (ofMillis ms h).millis = ms := by
  rw [millis, nanos_ofMillis, Nat.mul_div_cancel ms (by decide), Nat.mod_eq_of_lt (Nat.lt_succ_of_le h)]

/-- **The sum**, if it fits. -/
def add? (a b : Span) : Option Span :=
  if h : a.nanos + b.nanos ≤ greatest then some ⟨a.nanos + b.nanos, h⟩ else none

/-- **Twice a length of time**, or the greatest if that does not fit. -/
def doubled (t : Span) : Span := ⟨min (2 * t.nanos) greatest, Nat.min_le_right _ _⟩

@[simp] theorem nanos_doubled (t : Span) : t.doubled.nanos = min (2 * t.nanos) greatest := rfl

/-- The lesser of two. -/
def least (a b : Span) : Span := if a.nanos ≤ b.nanos then a else b

@[simp] theorem nanos_least (a b : Span) : (least a b).nanos = min a.nanos b.nanos := by
  rw [least]
  split <;> omega

/-- **The delay after the end of an attempt**, by the number of ends in a row: none after the first, then
doubled each time. -/
def delayAfter (first ceiling : Span) : Nat → Span
  | 0 => zero
  | 1 => zero
  | 2 => least first ceiling
  | n + 3 => least (delayAfter first ceiling (n + 2)).doubled ceiling

theorem jitter_le (t : Span) (draw : Nat) : Backoff.jitter t.millis draw ≤ Numeral.greatest64 :=
  Nat.le_trans (Backoff.jitter_le _ _) (Nat.le_of_lt_succ (Nat.mod_lt _ (Nat.succ_pos _)))

/-- **The wait after the end of an attempt**: the delay and a random part, if the sum fits. -/
def wait? (first ceiling greatestJitter : Span) (draw ends : Nat) : Option Span :=
  (delayAfter first ceiling ends).add? (ofMillis _ (greatestJitter.jitter_le draw))

end Span

end FeatureFlags
