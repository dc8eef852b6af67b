import StockMarket.Alerts.Batches

/-! # What one run of the worker triggers

A worker that runs alone to its end announces every alert it has triggered, once,
and no other.
-/

namespace StockMarket.Alerts
open Interleaving Prog Paging

/-- An alert of the id waited before and is triggered after. -/
def Flipped (before after : Store) (id : String) : Prop :=
  (∃ alert ∈ before.alerts.docs, alert.id = id ∧ ¬alert.triggered) ∧
    ∃ alert ∈ after.alerts.docs, alert.id = id ∧ alert.triggered

section Announced
variable {event : PriceUpdatedEvent} {s : Store} {selected : List Alert}

theorem waiting_of_mem {alert : Alert} (h : alert ∈ s.waiting event.stockId) :
    alert ∈ s.alerts.docs ∧ alert.stockId = event.stockId ∧ ¬alert.triggered := by
  obtain ⟨hdocs, hwaiting⟩ := List.mem_filter.mp h
  exact ⟨hdocs, of_decide_eq_true hwaiting⟩

theorem alert_eq_of_id {alert alert' : Alert} (h : alert ∈ s.alerts.docs)
    (h' : alert' ∈ s.alerts.docs) (hid : alert.id = alert'.id) : alert = alert' :=
  List.inj_on_of_nodup_map s.alerts.nodup h h' hid

/-- The alerts announced are those that were triggered with them. -/
theorem flipped_announced_iff (h : selected ⊆ s.waiting event.stockId) (id : String) :
    Flipped s (announced event s selected) id ↔ id ∈ selected.map Alert.id := by
  constructor
  · rintro ⟨⟨alert, halert, rfl, hwaits⟩, alert', halert', hid, htriggered⟩
    obtain ⟨old, hold, rfl⟩ := List.mem_map.mp halert'
    rw [Collection.id_mark] at hid
    obtain rfl := alert_eq_of_id hold halert hid
    by_contra hnot
    rw [Collection.mark, if_neg hnot] at htriggered
    exact hwaits htriggered
  · intro hid
    obtain ⟨alert, halert, rfl⟩ := List.mem_map.mp hid
    obtain ⟨hdocs, -, hwaits⟩ := waiting_of_mem (h halert)
    constructor
    · exact ⟨alert, hdocs, rfl, hwaits⟩
    · refine ⟨Collection.mark (selected.map Alert.id) alert, List.mem_map_of_mem hdocs, ?_, ?_⟩
      · rw [Collection.id_mark]
      · rw [Collection.mark, if_pos hid]

theorem nodup_marked_ids (event : PriceUpdatedEvent) (s : Store) :
    ((marked AlertConsumer.BATCH_SIZE (fires event.newPrice) (s.waiting event.stockId)).map
      Alert.id).Nodup := by
  have hsub := marked_sublist AlertConsumer.BATCH_SIZE (fires event.newPrice)
    (s.waiting event.stockId)
  have hdocs : (s.waiting event.stockId).Sublist s.alerts.docs := List.filter_sublist
  exact s.alerts.nodup.sublist (((hsub.trans List.filter_sublist).trans hdocs).map Alert.id)

end Announced

/-- The run ends, and its messages are for the alerts it has triggered: each once, all
of the event's stock and firing at its price. Nothing else changes in the collection. -/
theorem announces_triggered (event : PriceUpdatedEvent) (s : Store) (extra : ℕ) :
    let out := (AlertConsumer.onPriceUpdated
      (s.alerts.docs.length / AlertConsumer.BATCH_SIZE + 1 + extra) event).run exec answered s
    (∃ totalTriggered, out.1 = .ok (some totalTriggered)) ∧
      ∃ (messages : List PriceAlertMessage) (ids : List String),
        out.2.outbox = s.outbox ++ messages ∧
        messages.map PriceAlertMessage.alertId = ids.map some ∧ ids.Nodup ∧
        (∀ id, id ∈ ids ↔ Flipped s out.2 id) ∧
        (∀ alert ∈ s.alerts.docs, alert.id ∈ ids →
          alert.stockId = event.stockId ∧ fires event.newPrice alert) ∧
        out.2.alerts.docs = s.alerts.docs.map fun alert =>
          if alert.id ∈ ids then { alert with triggered := true } else alert := by
  intro out
  set selected := marked AlertConsumer.BATCH_SIZE (fires event.newPrice)
    (s.waiting event.stockId) with hselected
  have hout : out = (.ok (some selected.length), announced event s selected) :=
    run_onPriceUpdated event s extra
  rw [hout]
  constructor
  · exact ⟨_, rfl⟩
  · refine ⟨selected.map (AlertConsumer.message event), selected.map Alert.id, rfl, ?_,
      nodup_marked_ids event s, ?_, ?_, rfl⟩
    · simp only [List.map_map]
      rfl
    · intro id
      exact (flipped_announced_iff (marked_subset event s) id).symm
    · intro alert halert hid
      obtain ⟨chosen, hchosen, hsame⟩ := List.mem_map.mp hid
      obtain ⟨hdocs, hstock, -⟩ := waiting_of_mem (marked_subset event s hchosen)
      obtain rfl := alert_eq_of_id hdocs halert hsame
      exact ⟨hstock, (mem_of_mem_marked hchosen).2⟩

end StockMarket.Alerts
