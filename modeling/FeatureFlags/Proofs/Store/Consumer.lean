import FeatureFlags.Proofs.Store.Run
import FeatureFlags.Proofs.Sync.Channel

/-!
# Proofs/Store/Consumer — what a queue that loses deliveries leaves in force

A consumer applies to its store what it receives from the queue.  The table in force is that of the last
delivery it received that gave one (`Store.holds_fed`), and a delivery that gives a table is a whole
configuration: it does not matter which others were lost before it.  So the store is the one that all
deliveries would have left if the last usable one was received (`Exchange.fed_received`).  When that one
was overtaken, by deliveries none of which gives a table, it is not (`Exchange.fed_received_overrun`).
-/

namespace FeatureFlags

variable {parser : Parser}

/-! ## A row of deliveries -/

namespace Store

/-- **The store that a row of deliveries leaves.** -/
def fed (parser : Parser) (payloads : List Payload) : Store :=
  (Outlet.run parser (payloads.map .delivery)).store

/-- **It holds the table of the last delivery that gave one.** -/
theorem holds_fed (payloads : List Payload) :
    Outlet.Holds (fed parser payloads) (payloads.filterMap (Payload.table? parser)).getLast? := by
  have hdeliveries : Outlet.deliveries (payloads.map .delivery) = payloads := by
    rw [Outlet.deliveries, List.filterMap_map]
    exact List.filterMap_some
  have h := @Outlet.holds_run parser (payloads.map .delivery)
  rwa [Outlet.lastTable?, hdeliveries] at h

theorem fed_congr {first second : List Payload}
    (h : (first.filterMap (Payload.table? parser)).getLast? =
      (second.filterMap (Payload.table? parser)).getLast?) : fed parser first = fed parser second := by
  obtain ⟨htable, hready⟩ := @holds_fed parser first
  obtain ⟨htable', hready'⟩ := @holds_fed parser second
  exact (Store.mk.injEq ..).mpr
    ⟨htable.trans (h ▸ htable'.symm), hready.trans (h ▸ hready'.symm)⟩

end Store

/-! ## The last usable delivery -/

namespace Payload

/-- **Of a row of deliveries, the one with this number is the last that gives a table.** -/
structure IsLastUsable (parser : Parser) (payloads : List Payload) (number : Nat)
    (table : FlagSet) : Prop where
  gives : payloads[number]?.bind (table? parser) = some table
  none_later : ∀ payload ∈ payloads.drop (number + 1), payload.table? parser = none

variable {payloads : List Payload}

theorem IsLastUsable.getLast? {number : Nat} {table : FlagSet}
    (h : IsLastUsable parser payloads number table) :
    (payloads.filterMap (table? parser)).getLast? = some table := by
  obtain ⟨payload, hpayload, hgives⟩ := Option.bind_eq_some_iff.mp h.gives
  obtain ⟨hlt, rfl⟩ := List.getElem?_eq_some_iff.mp hpayload
  rw [← List.take_append_drop number payloads, List.drop_eq_getElem_cons hlt]
  exact getLast?_of_none_later hgives h.none_later

/-- A later delivery that gives no table changes nothing. -/
theorem IsLastUsable.concat {number : Nat} {table : FlagSet}
    (h : IsLastUsable parser payloads number table) {last : Payload} (hlast : last.table? parser = none) :
    IsLastUsable parser (payloads ++ [last]) number table := by
  obtain ⟨payload, hpayload, hgives⟩ := Option.bind_eq_some_iff.mp h.gives
  have hlt : number < payloads.length := (List.getElem?_eq_some_iff.mp hpayload).1
  refine ⟨?_, fun later hlater => ?_⟩
  · rw [List.getElem?_append_left hlt]
    exact h.gives
  · rw [List.drop_append_of_le_length hlt, List.mem_append, List.mem_singleton] at hlater
    exact hlater.elim (h.none_later later) fun heq => heq ▸ hlast

/-- There is a last one, unless there is none. -/
theorem exists_isLastUsable (payloads : List Payload) :
    (∀ payload ∈ payloads, payload.table? parser = none) ∨
      ∃ number table, IsLastUsable parser payloads number table := by
  induction payloads using List.reverseRecOn with
  | nil => exact .inl fun _ h => nomatch h
  | append_singleton payloads last ih =>
    cases hlast : last.table? parser with
    | some table =>
      refine .inr ⟨payloads.length, table, ?_, ?_⟩
      · rw [List.getElem?_concat_length]
        exact hlast
      · rw [List.drop_eq_nil_of_le (by simp)]
        exact fun _ h => nomatch h
    | none =>
      refine ih.imp (fun hnone payload h => ?_) fun ⟨number, table, h⟩ => ⟨number, table, h.concat hlast⟩
      rw [List.mem_append, List.mem_singleton] at h
      exact h.elim (hnone payload) fun heq => heq ▸ hlast

end Payload

/-! ## A consumer -/

namespace Exchange

variable {x : Exchange Payload}

/-- What was received gives a table only if what was sent does. -/
theorem Sound.none_received (h : x.Sound) (hnone : ∀ p ∈ x.sent, p.table? parser = none) :
    (x.received.map (·.2)).filterMap (Payload.table? parser) = [] := by
  refine List.filterMap_eq_nil_iff.mpr fun p hp => ?_
  obtain ⟨e, he, rfl⟩ := List.mem_map.mp hp
  exact hnone _ (List.mem_of_getElem? (h.of_mem_received e he).1)

/-- What was received after a value was sent after it. -/
theorem Sound.mem_drop_of_mem (h : x.Sound) {number : Nat} {e : Nat × Payload} (he : e ∈ x.received)
    (hlt : number < e.1) : e.2 ∈ x.sent.drop (number + 1) := by
  refine List.mem_of_getElem? (i := e.1 - (number + 1)) ?_
  rw [List.getElem?_drop, Nat.add_sub_of_le hlt, (h.of_mem_received e he).1]

/-- **A consumer that received the last usable delivery ends with its table.** -/
theorem Sound.getLast?_received (h : x.Sound) {number : Nat} {table : FlagSet}
    (hlast : Payload.IsLastUsable parser x.sent number table) {payload : Payload}
    (hmem : (number, payload) ∈ x.received) :
    ((x.received.map (·.2)).filterMap (Payload.table? parser)).getLast? = some table := by
  have hgives : payload.table? parser = some table := by
    have := hlast.gives
    rwa [(h.of_mem_received _ hmem).1] at this
  obtain ⟨first, later, hreceived⟩ := List.append_of_mem hmem
  have hascending := h.ascending
  rw [hreceived, List.pairwise_append, List.pairwise_cons] at hascending
  rw [hreceived, List.map_append, List.map_cons]
  refine Payload.getLast?_of_none_later hgives fun p hp => ?_
  obtain ⟨e, he, rfl⟩ := List.mem_map.mp hp
  have hreceived' : e ∈ x.received := by simp [hreceived, he]
  exact hlast.none_later _ (h.mem_drop_of_mem hreceived' (hascending.2.1.1 e he))

/-- **What a queue that loses deliveries leaves in force.**  A consumer that got to the end has the table
of the last usable delivery it received.  That is what all deliveries would have left, unless the last
usable one was overtaken. -/
theorem fed_received (parser : Parser) (turns : List (ChannelTurn Payload))
    (hdrained : (run turns).IsDrained) :
    Outlet.Holds (Store.fed parser ((run turns).received.map (·.2)))
        (((run turns).received.map (·.2)).filterMap (Payload.table? parser)).getLast? ∧
      ((∀ number table, Payload.IsLastUsable parser (run turns).sent number table →
          ¬ Overtaken turns number) →
        Store.fed parser ((run turns).received.map (·.2)) = Store.fed parser (run turns).sent) := by
  refine ⟨Store.holds_fed _, fun hovertaken => Store.fed_congr ?_⟩
  have hsound := sound_run turns
  obtain hnone | ⟨number, table, hlast⟩ := @Payload.exists_isLastUsable parser (run turns).sent
  · rw [hsound.none_received hnone, List.filterMap_eq_nil_iff.mpr hnone]
  · obtain ⟨payload, hpayload, -⟩ := Option.bind_eq_some_iff.mp hlast.gives
    have hlt : number < (run turns).channel.next :=
      hdrained ▸ (List.getElem?_eq_some_iff.mp hpayload).1
    obtain ⟨received, hmem⟩ := (received_iff turns hlt).mpr (hovertaken number table hlast)
    rw [hsound.getLast?_received hlast hmem, hlast.getLast?]

/-- A configuration with one flag among faults, all sent before the consumer asks for the first. -/
def burst (before after : Nat) : List (ChannelTurn Payload) :=
  List.replicate before (.send (.fault "away")) ++
    .send (.data "\x7b\"flags\":\x7b\"on\":\x7b\"state\":\"ENABLED\"\x7d\x7d\x7d" ∅) ::
      List.replicate after (.send (.fault "away")) ++ List.replicate 10 .ask

/-- A fault is lost, and does no harm. -/
theorem fed_received_burst :
    (run (burst 1 7)).IsDrained ∧ (run (burst 1 7)).received.length < (run (burst 1 7)).sent.length ∧
      Store.fed (.standard .none) ((run (burst 1 7)).received.map (·.2)) =
        Store.fed (.standard .none) (run (burst 1 7)).sent := by
  have hdrained : (run (burst 1 7)).IsDrained := by
    rw [IsDrained]
    decide
  refine ⟨hdrained, by decide,
    (fed_received (.standard .none) _ hdrained).2 fun number table hlast hovertaken => ?_⟩
  have hlt : number + Queue.capacity < 9 := hovertaken.lt_length
  obtain rfl : number = 0 := by
    rw [Queue.capacity] at hlt
    omega
  exact nomatch hlast.gives

/-- **The only configuration is lost** to eight faults, so that nothing is in force. -/
theorem fed_received_overrun :
    (run (burst 0 8)).IsDrained ∧
      (Store.fed (.standard .none) ((run (burst 0 8)).received.map (·.2))).table ≠
        (Store.fed (.standard .none) (run (burst 0 8)).sent).table := by
  refine ⟨?_, fun h => ?_⟩
  · rw [IsDrained]
    decide
  · have hflag := congrArg (fun table : FlagSet => (table.get? "on").isSome) h
    revert hflag
    decide +kernel

end Exchange

end FeatureFlags
