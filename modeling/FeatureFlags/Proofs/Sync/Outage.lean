import FeatureFlags.Proofs.Sync.Waits
import Mathlib.Data.Nat.Log

/-!
# Proofs/Sync/Outage — whether a client slows down

The delay after ends in a row comes to the ceiling when the first delay is not zero
(`Backoff.reconnectDelay_eq_ceiling`), and stays zero when it is (`Backoff.reconnectDelay_of_zero`).
Settings with a first delay of zero are accepted all the same; with them a client that is refused again
and again makes its calls all at once, but for a random part (`Stream.slows_down_iff`).
-/

namespace FeatureFlags

namespace Backoff

variable {first ceiling : Nat}

/-- **Zero stays zero**, doubled. -/
theorem reconnectDelay_of_zero (ends : Nat) : reconnectDelay 0 ceiling ends = 0 := by
  rw [reconnectDelay.eq_def]
  split <;> simp

/-- **Any other delay comes to the ceiling**, after as many ends as the ceiling has binary digits. -/
theorem reconnectDelay_eq_ceiling (hfirst : 0 < first) {ends : Nat}
    (hends : Nat.clog 2 ceiling + 2 ≤ ends) : reconnectDelay first ceiling ends = ceiling := by
  obtain ⟨n, rfl⟩ := Nat.exists_eq_add_of_le' (Nat.le_of_add_left_le hends)
  have hpow : ceiling ≤ 2 ^ n :=
    (Nat.le_pow_clog (Nat.lt_succ_self 1) ceiling).trans
      (Nat.pow_le_pow_right Nat.two_pos (Nat.le_of_add_le_add_right hends))
  rw [reconnectDelay]
  exact Nat.min_eq_right (hpow.trans (Nat.le_mul_of_pos_left _ hfirst))

/-- **A schedule comes to its ceiling for good** exactly when it does not begin with zero. -/
theorem reaches_ceiling_iff (hceiling : 0 < ceiling) :
    (∃ enough, ∀ count, enough ≤ count →
      (advance^[count] (reconnect first ceiling)).delay = ceiling) ↔ 0 < first := by
  simp only [delay_iterate_reconnect]
  constructor
  · rintro ⟨enough, h⟩
    refine Nat.pos_of_ne_zero ?_
    rintro rfl
    have hzero := h enough (Nat.le_refl enough)
    rw [reconnectDelay_of_zero] at hzero
    omega
  · intro hfirst
    exact ⟨Nat.clog 2 ceiling + 1, fun count hcount =>
      reconnectDelay_eq_ceiling hfirst (Nat.succ_le_succ hcount)⟩

end Backoff

/-! ## A service that refuses every call -/

/-- **A service that refuses every call.** -/
def Service.IsRefusing (service : Service) : Prop :=
  ∀ a ∈ service.attempts, ∃ failure, a = .refused failure

namespace Stream

/-- Every attempt that is refused ends, and nothing else happens. -/
theorem history_of_refused {attempts : List Attempt} (h : ∀ a ∈ attempts, ∃ failure, a = .refused failure)
    {index : Nat} (hindex : index ≤ attempts.length) :
    history attempts index = List.replicate index .ended := by
  induction index generalizing attempts with
  | zero => rfl
  | succ index ih =>
    obtain ⟨a, rest, rfl⟩ := List.exists_cons_of_length_pos (Nat.zero_lt_of_lt hindex)
    obtain ⟨⟨failure, rfl⟩, hrest⟩ := List.forall_mem_cons.mp h
    rw [history_cons, ih hrest (Nat.le_of_succ_le_succ hindex)]
    rfl

section Refusing

variable {s : Settings} {service : Service} {draw : Nat → Nat} {now : Nat}

/-- **With a first delay a client that is refused slows down** to the ceiling. -/
theorem exists_calls_of_refusing (hrefusing : service.IsRefusing) (hfirst : 0 < s.retryBackoff)
    {index : Nat} (hindex : Nat.clog 2 s.retryBackoffMax + 1 ≤ index)
    (hlt : index < service.attempts.length) :
    ∃ call next, (calls (run s service draw now))[index]? = some call ∧
      (calls (run s service draw now))[index + 1]? = some next ∧ call + s.retryBackoffMax ≤ next := by
  have ha := List.getElem?_eq_getElem hlt
  have hends : ∀ c ∈ service.attempts.take (index + 1), c.conclusion?.isSome = true := by
    intro c hc
    obtain ⟨failure, rfl⟩ := hrefusing c (List.mem_of_mem_take hc)
    rfl
  obtain ⟨call, hcall, hnext⟩ := @calls_runFrom (calledMetadata s service) draw s.retryJitter
    s.retryBackoff s.retryBackoffMax _ _ _ ha hends [] 0 now
  refine ⟨call, _, hcall, hnext, ?_⟩
  have hdelay : Backoff.reconnectDelay s.retryBackoff s.retryBackoffMax (index + 1) =
      s.retryBackoffMax := Backoff.reconnectDelay_eq_ceiling hfirst (Nat.succ_le_succ hindex)
  rw [waitAfter, List.nil_append, ← history_succ ha, history_of_refused hrefusing hlt,
    endsInARow_replicate, hdelay]
  omega

/-- **Without a delay and a random part it does not wait at all.** -/
theorem calls_of_refused {metadata : Nat → Metadata} {ceiling : Nat} {attempts : List Attempt}
    (h : ∀ a ∈ attempts, ∃ failure, a = .refused failure) (before : List Milestone) (number : Nat) :
    calls (runFrom metadata 0 draw number now (Backoff.after 0 ceiling before) attempts) =
      List.replicate (attempts.length + 1) now := by
  induction attempts generalizing before number with
  | nil => rfl
  | cons a rest ih =>
    obtain ⟨⟨failure, rfl⟩, hrest⟩ := List.forall_mem_cons.mp h
    have hwait : waitAfter 0 ceiling 0 (draw number) before (.refused failure) = 0 := by
      rw [waitAfter, Backoff.reconnectDelay_of_zero, Nat.zero_add, Backoff.jitter, Nat.mod_one]
    have hnow : now + (Attempt.refused failure).lasting + 0 = now := rfl
    rw [calls_runFrom_cons rfl, hwait, hnow, ih hrest]
    rfl

end Refusing

/-- **Whether a client slows down.**  Of accepted settings with a ceiling above zero, the delay after
attempts that end in a row comes to the ceiling, and stays there, exactly when the first delay is not
zero; then a client whose calls are refused waits at least so long between two of them, from a call on
whose number is that of the binary digits of the ceiling.  The settings are accepted with a first delay
of zero, too, and then, without a random part, such a client makes all its calls at once. -/
theorem slows_down_iff {s : Settings} (haccepted : s.fault? = none) (hceiling : 0 < s.retryBackoffMax)
    {service : Service} (hrefusing : service.IsRefusing) (draw : Nat → Nat) (now : Nat) :
    ((∃ enough, ∀ count, enough ≤ count →
        (Backoff.advance^[count] (Backoff.reconnect s.retryBackoff s.retryBackoffMax)).delay =
          s.retryBackoffMax) ↔ 0 < s.retryBackoff) ∧
      (0 < s.retryBackoff → ∀ index, Nat.clog 2 s.retryBackoffMax + 1 ≤ index →
        index < service.attempts.length →
        ∃ call next, (calls (run s service draw now))[index]? = some call ∧
          (calls (run s service draw now))[index + 1]? = some next ∧
          call + s.retryBackoffMax ≤ next) ∧
      { s with retryBackoff := 0, retryJitter := 0 }.fault? = none ∧
      calls (run { s with retryBackoff := 0, retryJitter := 0 } service draw now) =
        List.replicate (service.attempts.length + 1) now := by
  obtain ⟨hdeadline, -, hhost, hinterval⟩ := Settings.fault?_eq_none_iff.mp haccepted
  exact ⟨Backoff.reaches_ceiling_iff hceiling,
    fun hfirst index hindex hlt => exists_calls_of_refusing hrefusing hfirst hindex hlt,
    Settings.fault?_eq_none_iff.mpr ⟨hdeadline, Nat.zero_le _, hhost, hinterval⟩,
    calls_of_refused hrefusing [] 0⟩

/-- A service that refuses twenty calls. -/
def closedService : Service := ⟨fun _ => none, List.replicate 20 (.refused .closed)⟩

/-- By default the twentieth call is two minutes after the one before; without delays it is at once. -/
theorem slows_down_iff_closed :
    closedService.IsRefusing ∧
      (∃ call next, (calls (run (∅ : Layer).settle closedService id 0))[18]? = some call ∧
        (calls (run (∅ : Layer).settle closedService id 0))[19]? = some next ∧ call + 120000 ≤ next) ∧
      calls (run { (∅ : Layer).settle with retryBackoff := 0, retryJitter := 0 } closedService id 0) =
        List.replicate 21 0 := by
  have hrefusing : closedService.IsRefusing := fun a ha => ⟨_, List.eq_of_mem_replicate ha⟩
  have hlog : Nat.clog 2 120000 ≤ 17 := Nat.clog_le_of_le_pow (by decide)
  obtain ⟨-, hslow, -, hhot⟩ :=
    @slows_down_iff (∅ : Layer).settle (by decide) (by decide) _ hrefusing id 0
  exact ⟨hrefusing, hslow (by decide) 18 (Nat.succ_le_succ hlog) (by decide), hhot⟩

end Stream

end FeatureFlags
