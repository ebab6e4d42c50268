import FeatureFlags.Sync.Channel
import Mathlib.Data.List.Basic
import Mathlib.Data.List.Induction

/-!
# Proofs/Sync/Channel — what comes out of a numbered channel

At any time of a run the channel retains the newest values sent, and the reader has got some of those
that came before the number it asks for, in order (`Exchange.Sound`).  Which of them it did not get is
decided by the run: those that were `Overtaken`, so many later ones being sent before their turn came
(`Exchange.received_iff`).  A reader that goes on asking gets what is retained, and then learns whether
the channel is closed (`Exchange.received_asked`, `Exchange.isEnded_asked`).

`Exchange.lawful_run` puts these together, with what the same turns do to a `Queue`.
-/

namespace FeatureFlags

variable {α : Type}

/-! ## The newest items of a list -/

theorem newest_of_length_le {n : Nat} {items : List α} (h : items.length ≤ n) :
    newest n items = items := by
  rw [newest, Nat.sub_eq_zero_of_le h, List.drop_zero]

/-- What was driven out before does not matter. -/
theorem newest_newest_append (n : Nat) (first second : List α) :
    newest n (newest n first ++ second) = newest n (first ++ second) := by
  by_cases hshort : first.length ≤ n
  · rw [newest_of_length_le hshort]
  · simp only [newest, List.drop_append, List.length_drop, List.length_append, List.drop_drop]
    congr 2 <;> omega

/-! ## The moves of a queue -/

namespace Queue

variable {q : Queue α} {item : α} {rest : List α}

/-- **What a turn does to a queue.** -/
def turn (q : Queue α) : ChannelTurn α → Queue α
  | .send value => q.send value
  | .addSender => q.addSender
  | .dropSender => q.dropSender
  | .ask => q.receive.2

theorem receive_of_unread_cons (h : q.unread = item :: rest) :
    ∃ hlength, q.receive = (.item item, ⟨rest, q.senders, q.hasReader, hlength⟩) := by
  obtain ⟨unread, senders, hasReader, hlength⟩ := q
  subst h
  exact ⟨_, rfl⟩

theorem receive_of_unread_nil (h : q.unread = []) :
    q.receive = (if q.senders = 0 then .closed else .nothing, q) := by
  obtain ⟨unread, senders, hasReader, hlength⟩ := q
  subst h
  cases senders <;> rfl

/-- What is received stood first. -/
theorem unread_of_receive {rest : Queue α} (h : q.receive = (.item item, rest)) :
    q.unread = item :: rest.unread := by
  cases hunread : q.unread with
  | nil =>
    rw [receive_of_unread_nil hunread] at h
    split at h <;> cases h
  | cons first others =>
    obtain ⟨hlength, hreceive⟩ := receive_of_unread_cons hunread
    rw [hreceive] at h
    cases h
    rfl

end Queue

/-! ## One move on the channel -/

namespace Channel

variable (c : Channel α)

theorem oldest_eq : c.oldest = c.count - Queue.capacity := by
  rw [oldest, c.length_retained]
  omega

theorem ask_of_isLagging (h : c.IsLagging) :
    c.ask = (.lagged (c.oldest - c.next),
      { c with next := c.oldest, next_le_count := Nat.sub_le _ _ }) := by
  rw [ask, dif_pos h]

/-- The reader gets the value it asks for. -/
theorem ask_of_lt (hlag : ¬ c.IsLagging) (hnew : c.next < c.count) :
    ∃ value, c.retained[c.next - c.oldest]? = some value ∧
      c.ask = (.value value, { c with next := c.next + 1, next_le_count := hnew }) := by
  have hretained : c.next - c.oldest < c.retained.length := by
    have := c.oldest_add_length
    rw [IsLagging] at hlag
    omega
  refine ⟨c.retained[c.next - c.oldest], List.getElem?_eq_getElem hretained, ?_⟩
  rw [ask, dif_neg hlag, dif_pos hnew]
  rfl

/-- An ask moves nothing but the reader. -/
@[simp] theorem count_ask : c.ask.2.count = c.count := by
  rw [ask]
  split
  · rfl
  · split <;> rfl

@[simp] theorem retained_ask : c.ask.2.retained = c.retained := by
  rw [ask]
  split
  · rfl
  · split <;> rfl

@[simp] theorem senders_ask : c.ask.2.senders = c.senders := by
  rw [ask]
  split
  · rfl
  · split <;> rfl

theorem not_isLagging_of_eq (h : c.next = c.count) : ¬ c.IsLagging := by
  rw [IsLagging, oldest]
  omega

/-- The reader has got to the end. -/
theorem ask_of_eq (h : c.next = c.count) :
    c.ask = (if c.senders = 0 then .closed else .nothing, c) := by
  rw [ask, dif_neg (c.not_isLagging_of_eq h), dif_neg (Nat.not_lt.mpr (Nat.le_of_eq h.symm))]

/-- A reader that has asked does not lag. -/
theorem not_isLagging_ask : ¬ c.ask.2.IsLagging := by
  by_cases hlag : c.IsLagging
  · rw [c.ask_of_isLagging hlag]
    exact Nat.lt_irrefl _
  · obtain hnew | hend := Nat.lt_or_eq_of_le c.next_le_count
    · obtain ⟨value, -, hask⟩ := c.ask_of_lt hlag hnew
      rw [hask]
      exact fun hlater => hlag (Nat.lt_of_succ_lt hlater)
    · rwa [c.ask_of_eq hend]

/-! ### The queue -/

/-- **Sending to the channel is sending to the queue.** -/
theorem toQueue_send (hsenders : c.senders ≠ 0) (value : α) :
    (c.send value).toQueue = c.toQueue.send value := by
  have hretained := c.length_retained
  have hnext := c.next_le_count
  have hsend : c.toQueue.send value = c.toQueue.push value := by simp [Queue.send, toQueue, hsenders]
  have hunread : (c.send value).toQueue.unread = (c.toQueue.push value).unread := by
    simp only [toQueue, oldest, send, Queue.push, newest, List.length_append, List.length_singleton,
      List.length_drop, List.drop_drop]
    rw [← List.drop_append_of_le_length (by omega), List.drop_drop]
    congr 1
    omega
  exact hsend ▸ (Queue.mk.injEq ..).mpr ⟨hunread, rfl, rfl⟩

theorem toQueue_addSender : c.addSender.toQueue = c.toQueue.addSender := by
  have hsenders : c.toQueue.senders = c.senders := rfl
  rw [addSender, Queue.addSender, hsenders]
  split <;> rfl

/-- **An ask that lags does nothing to the queue.** -/
theorem toQueue_ask_of_isLagging (h : c.IsLagging) : c.ask.2.toQueue = c.toQueue := by
  have hdrop : c.oldest - c.oldest = c.next - c.oldest := by
    rw [IsLagging] at h
    omega
  rw [ask_of_isLagging c h]
  exact (Queue.mk.injEq ..).mpr ⟨congrArg (c.retained.drop ·) hdrop, rfl, rfl⟩

/-- **Every other one reads from it.** -/
theorem receive_toQueue (h : ¬ c.IsLagging) :
    ∃ received, c.ask.1.received? = some received ∧
      c.toQueue.receive = (received, c.ask.2.toQueue) := by
  rcases Nat.lt_or_eq_of_le c.next_le_count with hnew | hend
  · obtain ⟨value, hvalue, hask⟩ := c.ask_of_lt h hnew
    obtain ⟨hlt, rfl⟩ := List.getElem?_eq_some_iff.mp hvalue
    have hunread : c.toQueue.unread = c.retained[c.next - c.oldest] ::
        c.retained.drop (c.next - c.oldest + 1) := List.drop_eq_getElem_cons hlt
    obtain ⟨hlength, hreceive⟩ := Queue.receive_of_unread_cons hunread
    rw [hreceive, hask]
    refine ⟨_, rfl, Prod.ext rfl ((Queue.mk.injEq ..).mpr ⟨?_, rfl, rfl⟩)⟩
    have hnext : c.oldest ≤ c.next := Nat.not_lt.mp h
    exact congrArg (c.retained.drop ·) (Nat.sub_add_comm hnext).symm
  · have hunread : c.toQueue.unread = [] := by
      have := c.oldest_add_length
      exact List.drop_eq_nil_of_le (by omega)
    rw [Queue.receive_of_unread_nil hunread, c.ask_of_eq hend]
    refine ⟨_, ?_, rfl⟩
    have hsenders : c.toQueue.senders = c.senders := rfl
    rw [hsenders]
    split <;> rfl

end Channel

/-! ## Invariants of a run -/

namespace Exchange

variable {x : Exchange α} {turns : List (ChannelTurn α)}

@[simp] theorem channel_ask (x : Exchange α) : (x.turn .ask).channel = x.channel.ask.2 := by
  rw [turn]
  rcases x.channel.ask with ⟨- | - | - | -, channel⟩ <;> rfl

@[simp] theorem sent_ask (x : Exchange α) : (x.turn .ask).sent = x.sent := by
  rw [turn]
  rcases x.channel.ask with ⟨- | - | - | -, channel⟩ <;> rfl

/-- **What holds at any time of a run.** -/
structure Sound (x : Exchange α) : Prop where
  count_eq : x.channel.count = x.sent.length
  retained_eq : x.channel.retained = newest Queue.capacity x.sent
  /-- What was received was sent under its number, and its turn has come. -/
  of_mem_received : ∀ e ∈ x.received, x.sent[e.1]? = some e.2 ∧ e.1 < x.channel.next
  ascending : x.received.Pairwise (·.1 < ·.1)
  of_isEnded : x.isEnded = true → x.channel.senders = 0 ∧ x.channel.next = x.channel.count

theorem sound_start : (start : Exchange α).Sound where
  count_eq := rfl
  retained_eq := rfl
  of_mem_received _ h := nomatch h
  ascending := .nil
  of_isEnded h := nomatch h

theorem Sound.oldest_eq (h : x.Sound) : x.channel.oldest = x.sent.length - Queue.capacity := by
  rw [x.channel.oldest_eq, h.count_eq]

/-- An ask that lags takes the lag back … -/
theorem turn_ask_of_isLagging (hlag : x.channel.IsLagging) :
    x.turn .ask = { x with channel := x.channel.ask.2 } ∧
      (x.turn .ask).channel.next = x.channel.oldest := by
  rw [turn, x.channel.ask_of_isLagging hlag]
  exact ⟨rfl, rfl⟩

/-- … another one brings the value that is asked for … -/
theorem Sound.turn_ask_of_lt (h : x.Sound) (hlag : ¬ x.channel.IsLagging)
    (hnew : x.channel.next < x.channel.count) :
    ∃ value, x.sent[x.channel.next]? = some value ∧
      x.turn .ask = { x with
        channel := x.channel.ask.2, received := x.received ++ [(x.channel.next, value)] } ∧
      (x.turn .ask).channel.next = x.channel.next + 1 := by
  obtain ⟨value, hvalue, hask⟩ := x.channel.ask_of_lt hlag hnew
  refine ⟨value, ?_, ?_⟩
  · have hnext : x.channel.oldest ≤ x.channel.next := Nat.not_lt.mp hlag
    rw [h.retained_eq, newest, List.getElem?_drop, ← h.oldest_eq] at hvalue
    rwa [Nat.add_sub_of_le hnext] at hvalue
  · rw [turn, hask]
    exact ⟨rfl, rfl⟩

/-- … or tells that there is none. -/
theorem turn_ask_of_eq (hend : x.channel.next = x.channel.count) :
    x.turn .ask = { x with isEnded := x.isEnded || decide (x.channel.senders = 0) } := by
  rw [turn, x.channel.ask_of_eq hend]
  by_cases hsenders : x.channel.senders = 0
  · rw [if_pos hsenders, decide_eq_true hsenders, Bool.or_true]
    rfl
  · rw [if_neg hsenders, decide_eq_false hsenders, Bool.or_false]
    rfl

/-- **What an ask does**, in these three cases. -/
theorem Sound.ask_cases (h : x.Sound) :
    (x.channel.IsLagging ∧ x.turn .ask = { x with channel := x.channel.ask.2 } ∧
      (x.turn .ask).channel.next = x.channel.oldest) ∨
    (¬ x.channel.IsLagging ∧ ∃ value, x.sent[x.channel.next]? = some value ∧
      x.turn .ask = { x with
        channel := x.channel.ask.2, received := x.received ++ [(x.channel.next, value)] } ∧
      (x.turn .ask).channel.next = x.channel.next + 1) ∨
    (x.channel.next = x.channel.count ∧
      x.turn .ask = { x with isEnded := x.isEnded || decide (x.channel.senders = 0) }) := by
  by_cases hlag : x.channel.IsLagging
  · exact .inl ⟨hlag, turn_ask_of_isLagging hlag⟩
  · obtain hnew | hend := Nat.lt_or_eq_of_le x.channel.next_le_count
    · exact .inr (.inl ⟨hlag, h.turn_ask_of_lt hlag hnew⟩)
    · exact .inr (.inr ⟨hend, turn_ask_of_eq hend⟩)

theorem Sound.send (h : x.Sound) (value : α) : (x.turn (.send value)).Sound := by
  rw [turn]
  split
  · exact h
  · next hsenders =>
    refine ⟨?_, ?_, fun e he => ⟨?_, (h.of_mem_received e he).2⟩, h.ascending, fun hended => ?_⟩
    · rw [List.length_append, ← h.count_eq]
      rfl
    · rw [← newest_newest_append, ← h.retained_eq]
      rfl
    · exact List.getElem?_append_left
        (List.getElem?_eq_some_iff.mp (h.of_mem_received e he).1).1 ▸ (h.of_mem_received e he).1
    · exact absurd (h.of_isEnded hended).1 hsenders

/-- A reader that goes on has not come to the end. -/
theorem Sound.not_isEnded (h : x.Sound) (hnew : x.channel.next < x.channel.count) :
    ¬ x.isEnded = true :=
  fun hended => Nat.ne_of_lt hnew (h.of_isEnded hended).2

theorem Sound.advance (h : x.Sound) (hnew : x.channel.next < x.channel.count)
    (hlater : x.channel.next < x.channel.ask.2.next) :
    Sound { x with channel := x.channel.ask.2 } where
  count_eq := x.channel.count_ask ▸ h.count_eq
  retained_eq := x.channel.retained_ask ▸ h.retained_eq
  of_mem_received e he :=
    ⟨(h.of_mem_received e he).1, Nat.lt_trans (h.of_mem_received e he).2 hlater⟩
  ascending := h.ascending
  of_isEnded hended := absurd hended (h.not_isEnded hnew)

theorem Sound.receive (h : x.Sound) {value : α} (hvalue : x.sent[x.channel.next]? = some value)
    (hnew : x.channel.next < x.channel.count) (hlater : x.channel.next < x.channel.ask.2.next) :
    Sound { x with
      channel := x.channel.ask.2, received := x.received ++ [(x.channel.next, value)] } := by
  have hadvance := h.advance hnew hlater
  refine ⟨hadvance.count_eq, hadvance.retained_eq, fun e he => ?_, ?_, hadvance.of_isEnded⟩
  · obtain he | he := List.mem_append.mp he
    · exact hadvance.of_mem_received e he
    · obtain rfl := List.mem_singleton.mp he
      exact ⟨hvalue, hlater⟩
  · refine List.pairwise_append.mpr ⟨h.ascending, List.pairwise_singleton _ _, fun e he f hf => ?_⟩
    obtain rfl := List.mem_singleton.mp hf
    exact (h.of_mem_received e he).2

theorem Sound.ask (h : x.Sound) : (x.turn .ask).Sound := by
  obtain ⟨hlag, hturn, hnext⟩ | ⟨-, value, hvalue, hturn, hnext⟩ | ⟨hend, hturn⟩ := h.ask_cases
  · rw [channel_ask] at hnext
    rw [hturn]
    exact h.advance (Nat.lt_of_lt_of_le hlag (Nat.sub_le _ _)) (hnext ▸ hlag)
  · rw [channel_ask] at hnext
    rw [hturn]
    have hnew := (List.getElem?_eq_some_iff.mp hvalue).1
    exact h.receive hvalue (h.count_eq ▸ hnew) (hnext ▸ Nat.lt_succ_self _)
  · rw [hturn]
    refine ⟨h.count_eq, h.retained_eq, h.of_mem_received, h.ascending, fun hended => ?_⟩
    obtain hended | hsenders := Bool.or_eq_true_iff.mp hended
    · exact h.of_isEnded hended
    · exact ⟨of_decide_eq_true hsenders, hend⟩

/-- **Every turn keeps it.** -/
theorem Sound.turn (h : x.Sound) : (t : ChannelTurn α) → (x.turn t).Sound
  | .send value => h.send value
  | .ask => h.ask
  | .addSender => by
    rw [Exchange.turn, Channel.addSender]
    split
    · exact h
    · exact ⟨h.count_eq, h.retained_eq, h.of_mem_received, h.ascending,
        fun hended => absurd (h.of_isEnded hended).1 ‹_›⟩
  | .dropSender =>
    ⟨h.count_eq, h.retained_eq, h.of_mem_received, h.ascending, fun hended =>
      ⟨by rw [Exchange.turn, Channel.dropSender, (h.of_isEnded hended).1], (h.of_isEnded hended).2⟩⟩

theorem run_concat (turns : List (ChannelTurn α)) (t : ChannelTurn α) :
    run (turns ++ [t]) = (run turns).turn t := by
  rw [run, run, List.foldl_append, List.foldl_cons, List.foldl_nil]

theorem sound_run (turns : List (ChannelTurn α)) : (run turns).Sound := by
  induction turns using List.reverseRecOn with
  | nil => exact sound_start
  | append_singleton turns t ih => exact run_concat turns t ▸ ih.turn t

/-! ## Which values are received -/

/-- **A value was overtaken**: at some time its turn had not come and as many later ones were sent as
the channel retains. -/
def Overtaken (turns : List (ChannelTurn α)) (number : Nat) : Prop :=
  ∃ before, before <+: turns ∧ (run before).channel.next ≤ number ∧
    number + Queue.capacity < (run before).sent.length

theorem overtaken_concat {t : ChannelTurn α} {number : Nat} :
    Overtaken (turns ++ [t]) number ↔
      Overtaken turns number ∨ ((run turns).turn t).channel.next ≤ number ∧
        number + Queue.capacity < ((run turns).turn t).sent.length := by
  constructor
  · rintro ⟨before, hbefore, hnow⟩
    rcases List.prefix_concat_iff.mp hbefore with rfl | hbefore
    · exact .inr (run_concat turns t ▸ hnow)
    · exact .inl ⟨before, hbefore, hnow⟩
  · rintro (⟨before, hbefore, hnow⟩ | hnow)
    · exact ⟨before, hbefore.trans (List.prefix_append _ _), hnow⟩
    · exact ⟨turns ++ [t], List.prefix_refl _, run_concat turns t ▸ hnow⟩

theorem length_sent_le (x : Exchange α) (t : ChannelTurn α) :
    x.sent.length ≤ (x.turn t).sent.length := by
  cases t with
  | send value =>
    rw [Exchange.turn]
    split
    · exact Nat.le_refl _
    · rw [List.length_append]
      exact Nat.le_add_right _ _
  | ask => exact Nat.le_of_eq (congrArg _ x.sent_ask.symm)
  | addSender => exact Nat.le_refl _
  | dropSender => exact Nat.le_refl _

theorem Overtaken.lt_length {number : Nat} (h : Overtaken turns number) :
    number + Queue.capacity < (run turns).sent.length := by
  induction turns using List.reverseRecOn with
  | nil =>
    obtain ⟨before, hbefore, -, hnow⟩ := h
    rwa [List.prefix_nil.mp hbefore] at hnow
  | append_singleton turns t ih =>
    rw [run_concat]
    rcases overtaken_concat.mp h with h | h
    · exact Nat.lt_of_lt_of_le (ih h) (length_sent_le _ t)
    · exact h.2

/-- A value whose turn has come is overtaken no more … -/
theorem overtaken_concat_of_lt {t : ChannelTurn α} {number : Nat}
    (h : number < ((run turns).turn t).channel.next) :
    Overtaken (turns ++ [t]) number ↔ Overtaken turns number := by
  rw [overtaken_concat, or_iff_left fun hnow => absurd hnow.1 (Nat.not_le.mpr h)]

/-- … and of another one what has been sent decides. -/
theorem overtaken_iff_of_le {number : Nat} (h : (run turns).channel.next ≤ number) :
    Overtaken turns number ↔ number + Queue.capacity < (run turns).sent.length :=
  ⟨Overtaken.lt_length, fun hlt => ⟨turns, List.prefix_refl _, h, hlt⟩⟩

/-- **How a turn brings the reader on**: not at all, or over the values it lags behind, or by the one it
asks for. -/
theorem Sound.turn_cases (h : x.Sound) (t : ChannelTurn α) :
    ((x.turn t).channel.next = x.channel.next ∧ (x.turn t).received = x.received) ∨
    (x.channel.IsLagging ∧ (x.turn t).channel.next = x.channel.oldest ∧
      (x.turn t).received = x.received) ∨
    (¬ x.channel.IsLagging ∧ (x.turn t).channel.next = x.channel.next + 1 ∧
      ∃ value, (x.turn t).received = x.received ++ [(x.channel.next, value)]) := by
  cases t with
  | ask =>
    obtain ⟨hlag, hturn, hnext⟩ | ⟨hlag, value, -, hturn, hnext⟩ | ⟨-, hturn⟩ := h.ask_cases
    · exact .inr (.inl ⟨hlag, hnext, by rw [hturn]⟩)
    · exact .inr (.inr ⟨hlag, hnext, value, by rw [hturn]⟩)
    · rw [hturn]
      exact .inl ⟨rfl, rfl⟩
  | send value =>
    rw [Exchange.turn]
    split <;> exact .inl ⟨rfl, rfl⟩
  | addSender =>
    rw [Exchange.turn, Channel.addSender]
    split <;> exact .inl ⟨rfl, rfl⟩
  | dropSender => exact .inl ⟨rfl, rfl⟩

/-- No turn receives a value whose turn has come before. -/
theorem Sound.received_turn_iff (h : x.Sound) (t : ChannelTurn α) {number : Nat}
    (hlt : number < x.channel.next) :
    (∃ value, (number, value) ∈ (x.turn t).received) ↔ ∃ value, (number, value) ∈ x.received := by
  obtain ⟨-, hreceived⟩ | ⟨-, -, hreceived⟩ | ⟨-, -, value, hreceived⟩ := h.turn_cases t <;>
    simp [hreceived, Nat.ne_of_lt hlt]

/-- The turn of a value comes: the reader gets it, unless so many later ones are there. -/
theorem Sound.received_turn_iff_of_le (h : x.Sound) (t : ChannelTurn α) {number : Nat}
    (hle : x.channel.next ≤ number) (hlt : number < (x.turn t).channel.next) :
    (∃ value, (number, value) ∈ (x.turn t).received) ↔ ¬ number + Queue.capacity < x.sent.length := by
  have holdest := h.oldest_eq
  obtain ⟨hnext, -⟩ | ⟨hlag, hnext, hreceived⟩ | ⟨hlag, hnext, value, hreceived⟩ := h.turn_cases t
  · exact absurd (hnext ▸ hlt) (Nat.not_lt.mpr hle)
  · refine iff_of_false ?_ (by omega)
    rintro ⟨value, hmem⟩
    exact absurd (h.of_mem_received _ (hreceived ▸ hmem)).2 (Nat.not_lt.mpr hle)
  · obtain rfl : number = x.channel.next := by omega
    rw [Channel.IsLagging] at hlag
    exact iff_of_true ⟨value, hreceived ▸ List.mem_concat_self⟩ (by omega)

/-- **Of the values whose turn has come, those were received that were not overtaken.** -/
theorem received_iff (turns : List (ChannelTurn α)) {number : Nat}
    (h : number < (run turns).channel.next) :
    (∃ value, (number, value) ∈ (run turns).received) ↔ ¬ Overtaken turns number := by
  induction turns using List.reverseRecOn with
  | nil => exact absurd h (Nat.not_lt_zero _)
  | append_singleton turns t ih =>
    rw [run_concat] at h ⊢
    rw [overtaken_concat_of_lt h]
    obtain hbefore | hnow := Nat.lt_or_ge number (run turns).channel.next
    · rw [(sound_run turns).received_turn_iff t hbefore, ih hbefore]
    · rw [(sound_run turns).received_turn_iff_of_le t hnow h, overtaken_iff_of_le hnow]

/-! ## A reader that goes on asking -/

/-- **The reader asks again and again**, so many times. -/
def asked (n : Nat) (x : Exchange α) : Exchange α := (List.replicate n .ask).foldl turn x

theorem asked_succ (n : Nat) (x : Exchange α) : x.asked (n + 1) = (x.turn .ask).asked n := rfl

theorem asked_concat (n : Nat) (x : Exchange α) : x.asked (n + 1) = (x.asked n).turn .ask := by
  rw [asked, List.replicate_succ', List.foldl_append]
  rfl

theorem run_append_asks (turns : List (ChannelTurn α)) (n : Nat) :
    run (turns ++ List.replicate n .ask) = (run turns).asked n := by
  rw [run, List.foldl_append]
  rfl

theorem Sound.asked (h : x.Sound) (n : Nat) : (x.asked n).Sound := by
  induction n generalizing x with
  | zero => exact h
  | succ n ih => exact ih (h.turn .ask)

@[simp] theorem senders_asked (n : Nat) (x : Exchange α) :
    (x.asked n).channel.senders = x.channel.senders := by
  induction n generalizing x with
  | zero => rfl
  | succ n ih => rw [asked_succ, ih, channel_ask, Channel.senders_ask]

/-- The reader has got to the end. -/
def IsDrained (x : Exchange α) : Prop := x.channel.next = x.sent.length

theorem not_isLagging_turn_ask (x : Exchange α) : ¬ (x.turn .ask).channel.IsLagging := by
  rw [channel_ask]
  exact x.channel.not_isLagging_ask

/-- **A reader that does not lag gets everything that is left.** -/
theorem Sound.received_asked_of_not_isLagging (h : x.Sound) (hlag : ¬ x.channel.IsLagging) {n : Nat}
    (hn : x.sent.length ≤ x.channel.next + n) :
    (x.asked n).received.map (·.2) = x.received.map (·.2) ++ x.sent.drop x.channel.next ∧
      (x.asked n).IsDrained := by
  induction n generalizing x with
  | zero =>
    have hend : x.channel.next ≤ x.sent.length := h.count_eq ▸ x.channel.next_le_count
    refine ⟨?_, Nat.le_antisymm hend hn⟩
    exact (List.drop_eq_nil_of_le hn).symm ▸ (List.append_nil _).symm
  | succ n ih =>
    -- the reader may get to the end before the last request; the others then find nothing
    obtain hnew | hend := Nat.lt_or_eq_of_le x.channel.next_le_count
    · obtain ⟨value, hvalue, hturn, hnext⟩ := h.turn_ask_of_lt hlag hnew
      obtain ⟨hlt, rfl⟩ := List.getElem?_eq_some_iff.mp hvalue
      obtain ⟨hreceived, hdrained⟩ := ih (h.turn .ask) x.not_isLagging_turn_ask
        (by rw [sent_ask, hnext]; omega)
      refine ⟨?_, hdrained⟩
      rw [asked_succ, hreceived, hnext, sent_ask, hturn, List.map_append, List.append_assoc]
      exact congrArg (_ ++ ·) (List.drop_eq_getElem_cons hlt).symm
    · have hturn := turn_ask_of_eq hend
      obtain ⟨hreceived, hdrained⟩ := ih (h.turn .ask) x.not_isLagging_turn_ask
        (by rw [hturn, ← h.count_eq, ← hend]; exact Nat.le_add_right _ _)
      refine ⟨?_, hdrained⟩
      rw [asked_succ, hreceived, sent_ask, hturn]

/-- A lag is that of the newest values. -/
theorem Sound.newest_drop (h : x.Sound) (hlag : x.channel.IsLagging) :
    newest Queue.capacity (x.sent.drop x.channel.next) = x.sent.drop x.channel.oldest := by
  have holdest := h.oldest_eq
  rw [Channel.IsLagging] at hlag
  rw [newest, List.length_drop, List.drop_drop]
  congr 1
  omega

/-- **A reader that goes on asking gets the newest values** of those that it has not got. -/
theorem Sound.received_asked (h : x.Sound) {n : Nat} (hn : Queue.capacity < n) :
    (x.asked n).received.map (·.2) =
        x.received.map (·.2) ++ newest Queue.capacity (x.sent.drop x.channel.next) ∧
      (x.asked n).IsDrained := by
  have holdest := h.oldest_eq
  by_cases hlag : x.channel.IsLagging
  · -- The first ask takes the lag back.
    obtain ⟨hturn, hnext⟩ := turn_ask_of_isLagging hlag
    have hreceived : (x.turn .ask).received = x.received := by rw [hturn]
    obtain ⟨n, rfl⟩ : ∃ m, n = m + 1 := ⟨n - 1, by omega⟩
    rw [asked_succ, h.newest_drop hlag, ← hreceived, ← hnext, ← x.sent_ask]
    refine (h.turn .ask).received_asked_of_not_isLagging x.not_isLagging_turn_ask ?_
    rw [hnext, sent_ask]
    omega
  · have hrest : x.sent.length ≤ x.channel.next + Queue.capacity := by
      rw [Channel.IsLagging] at hlag
      omega
    rw [newest_of_length_le (by rw [List.length_drop]; omega)]
    exact h.received_asked_of_not_isLagging hlag (by omega)

/-- … **and then learns whether more can come.** -/
theorem Sound.isEnded_asked (h : x.Sound) {n : Nat} (hn : Queue.capacity < n) :
    (x.asked (n + 1)).isEnded = true ↔ x.channel.senders = 0 := by
  have hsound := h.asked n
  have hend : (x.asked n).channel.next = (x.asked n).channel.count :=
    (h.received_asked hn).2.trans hsound.count_eq.symm
  rw [asked_concat, ← x.senders_asked n]
  generalize x.asked n = y at hsound hend ⊢
  constructor
  · intro hended
    exact y.channel.senders_ask ▸ y.channel_ask ▸ (hsound.ask.of_isEnded hended).1
  · intro hnone
    rw [Exchange.turn, y.channel.ask_of_eq hend, if_pos hnone]
    rfl

/-! ## The law -/

/-- **What a channel promises its reader**, after a row of turns and whatever comes next. -/
structure Lawful (turns : List (ChannelTurn α)) : Prop where
  /-- What was received was sent under its number … -/
  sent_of_mem : ∀ e ∈ (run turns).received, (run turns).sent[e.1]? = some e.2
  /-- … and came in order, no number twice. -/
  ascending : (run turns).received.Pairwise (·.1 < ·.1)
  /-- Of the values whose turn has come, exactly the overtaken ones were not received. -/
  received_iff : ∀ number < (run turns).channel.next,
    (∃ value, (number, value) ∈ (run turns).received) ↔ ¬ Overtaken turns number
  /-- A reader that goes on asking gets the newest of the values whose turn has not come … -/
  received_append : ∀ n, Queue.capacity < n →
    (run (turns ++ List.replicate n .ask)).received.map (·.2) =
      (run turns).received.map (·.2) ++
        newest Queue.capacity ((run turns).sent.drop (run turns).channel.next)
  /-- … and comes to the end only after them, and only if there is no sender. -/
  isEnded_append : ∀ n, Queue.capacity < n →
    ((run (turns ++ List.replicate (n + 1) .ask)).isEnded = true ↔ (run turns).channel.senders = 0)
  of_isEnded : (run turns).isEnded = true →
    (run turns).channel.senders = 0 ∧ (run turns).channel.next = (run turns).sent.length
  /-- That it lags a reader learns once; it has received nothing then, nor come to the end, and its queue
  is as before. -/
  of_isLagging : (run turns).channel.IsLagging →
    (run turns).turn .ask = { run turns with channel := ((run turns).turn .ask).channel } ∧
      ¬ ((run turns).turn .ask).channel.IsLagging ∧
      ((run turns).turn .ask).channel.toQueue = (run turns).channel.toQueue
  /-- Every other turn is one of its queue … -/
  toQueue_turn : ∀ t, (t = .ask → ¬ (run turns).channel.IsLagging) →
    ((run turns).turn t).channel.toQueue = (run turns).channel.toQueue.turn t
  /-- … from which it receives. -/
  received?_ask : ¬ (run turns).channel.IsLagging →
    (run turns).channel.ask.1.received? = some (run turns).channel.toQueue.receive.1

theorem toQueue_turn (x : Exchange α) (t : ChannelTurn α) (h : t = .ask → ¬ x.channel.IsLagging) :
    (x.turn t).channel.toQueue = x.channel.toQueue.turn t := by
  cases t with
  | send value =>
    rw [turn]
    split
    · next hsenders => simp [Queue.turn, Queue.send, Channel.toQueue, hsenders]
    · next hsenders => exact x.channel.toQueue_send hsenders value
  | addSender => exact x.channel.toQueue_addSender
  | dropSender => rfl
  | ask =>
    obtain ⟨received, -, hreceive⟩ := x.channel.receive_toQueue (h rfl)
    rw [channel_ask, Queue.turn, hreceive]

/-- **The law of the channel.** -/
theorem lawful_run (turns : List (ChannelTurn α)) : Lawful turns where
  sent_of_mem e he := ((sound_run turns).of_mem_received e he).1
  ascending := (sound_run turns).ascending
  received_iff _ h := received_iff turns h
  received_append n hn := by
    rw [run_append_asks]
    exact ((sound_run turns).received_asked hn).1
  isEnded_append n hn := by
    rw [run_append_asks]
    exact (sound_run turns).isEnded_asked hn
  of_isEnded h := (sound_run turns).count_eq ▸ (sound_run turns).of_isEnded h
  of_isLagging h := by
    rw [channel_ask]
    exact ⟨(turn_ask_of_isLagging h).1, Channel.not_isLagging_ask _,
      Channel.toQueue_ask_of_isLagging _ h⟩
  toQueue_turn := toQueue_turn (run turns)
  received?_ask h := by
    obtain ⟨received, hreceived, hreceive⟩ := (run turns).channel.receive_toQueue h
    rw [hreceived, hreceive]

/-- A burst of eleven: the three oldest are gone. -/
example :
    (run ((List.range 11).map .send ++ [.ask, .ask])).received = [(3, 3)] := by decide

end Exchange

end FeatureFlags
