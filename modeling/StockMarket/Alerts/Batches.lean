import StockMarket.Alerts.Service

/-! # The batches of one worker

A worker marks what fires in a batch and then skips as many alerts as it has
read. The marked ones no longer count, so it passes over as many waiting alerts
as it has just triggered.
-/

namespace StockMarket.Alerts
open Interleaving Prog Paging

def answered : AlertOp → Outcome Exception := fun _ => .done

/-- The alerts of a stock that wait, in the order they are stored. -/
def Store.waiting (s : Store) (stockId : String) : List Alert :=
  s.alerts.docs.filter (Collection.waiting stockId)

section Trigger
variable {c : Collection} {ids ids' : List String}

theorem mark_nil (alert : Alert) : Collection.mark [] alert = alert := by
  simp [Collection.mark]

@[simp] theorem trigger_nil (c : Collection) : c.trigger [] = c := by
  cases c with
  | mk docs nodup =>
    simp only [Collection.trigger, Collection.mk.injEq]
    rw [show Collection.mark [] = id from funext mark_nil, List.map_id]

theorem mark_mark (ids ids' : List String) (alert : Alert) :
    Collection.mark ids' (Collection.mark ids alert) = Collection.mark (ids ++ ids') alert := by
  simp only [Collection.mark]
  split <;> split <;> simp_all

theorem trigger_trigger (c : Collection) (ids ids' : List String) :
    (c.trigger ids).trigger ids' = c.trigger (ids ++ ids') := by
  simp only [Collection.trigger, Collection.mk.injEq, List.map_map]
  congr 1
  funext alert
  exact mark_mark ids ids' alert

/-- A marked alert waits no more, and the others stand as they stood. -/
theorem filter_map_mark (stockId : String) (ids : List String) (docs : List Alert) :
    (docs.map (Collection.mark ids)).filter (Collection.waiting stockId) =
      (docs.filter (Collection.waiting stockId)).filter fun alert => alert.id ∉ ids := by
  induction docs with
  | nil => rfl
  | cons alert docs ih =>
    by_cases h : alert.id ∈ ids
    · have hmark : Collection.waiting stockId (Collection.mark ids alert) = false := by
        simp [Collection.mark, h, Collection.waiting]
      rw [List.map_cons, List.filter_cons, hmark, ih]
      rcases hw : Collection.waiting stockId alert with _ | _
      · simp [hw]
      · simp [hw, h]
    · have hmark : Collection.mark ids alert = alert := by simp [Collection.mark, h]
      rw [List.map_cons, hmark, List.filter_cons, ih]
      rcases hw : Collection.waiting stockId alert with _ | _
      · simp [hw]
      · simp [hw, h]

end Trigger

section Run
variable {s : Store} {event : PriceUpdatedEvent}

/-- The store once the alerts are marked and their messages sent. -/
def announced (event : PriceUpdatedEvent) (s : Store) (alerts : List Alert) : Store :=
  { s with
    alerts := s.alerts.trigger (alerts.map Alert.id)
    outbox := s.outbox ++ alerts.map (AlertConsumer.message event) }

theorem announced_append (event : PriceUpdatedEvent) (s : Store) (first second : List Alert) :
    announced event (announced event s first) second = announced event s (first ++ second) := by
  simp [announced, trigger_trigger, List.append_assoc]

@[simp] theorem announced_nil (event : PriceUpdatedEvent) (s : Store) :
    announced event s [] = s := by
  simp [announced]

theorem run_emitChunk (chunk : List Alert) (s : Store) :
    (AlertConsumer.emitChunk event chunk).run exec answered s =
      (.ok (), { s with outbox := s.outbox ++ chunk.map (AlertConsumer.message event) }) := by
  induction chunk generalizing s with
  | nil => simp [AlertConsumer.emitChunk]
  | cons alert chunk ih =>
    have hsend : (query (.emit (AlertConsumer.message event alert))).run exec answered s =
        (.ok (), { s with outbox := s.outbox ++ [AlertConsumer.message event alert] }) := rfl
    rw [AlertConsumer.emitChunk, finallyDo, run_handle, hsend, run_handle, ih]
    simp [List.append_assoc, Prog.ofExcept]

theorem run_emitChunks (chunks : List (List Alert)) (totalTriggered : ℕ) (s : Store) :
    (AlertConsumer.emitChunks event chunks totalTriggered).run exec answered s =
      (.ok (totalTriggered + chunks.flatten.length),
        { s with outbox := s.outbox ++ chunks.flatten.map (AlertConsumer.message event) }) := by
  induction chunks generalizing totalTriggered s with
  | nil => simp [AlertConsumer.emitChunks]
  | cons chunk chunks ih =>
    rw [AlertConsumer.emitChunks, run_bind, run_emitChunk, andThen_ok, ih]
    simp [List.append_assoc, Nat.add_assoc]

/-- One pass of the loop triggers and announces what fires in the batch. -/
theorem run_announce (alerts : List Alert) (totalTriggered : ℕ) (s : Store) :
    (AlertConsumer.announce event alerts totalTriggered).run exec answered s =
      (.ok (totalTriggered + (alerts.filter (fires event.newPrice)).length),
        announced event s (alerts.filter (fires event.newPrice))) := by
  rw [AlertConsumer.announce]
  by_cases h : 0 < (alerts.filter (fires event.newPrice)).length
  · simp only [h, if_true]
    rw [run_send_bind_done _ _ _ _ rfl, run_emitChunks,
      chunks_flatten (by decide : 0 < AlertConsumer.NOTIFICATION_CHUNK)]
    rfl
  · simp only [h, if_false]
    rw [List.length_eq_zero_iff.mp (by omega : (alerts.filter (fires event.newPrice)).length = 0),
      announced_nil]
    rfl

/-- What a reader who has got to a page has still in front of it. -/
def Store.remaining (s : Store) (stockId : String) (page : ℕ) : List Alert :=
  (s.waiting stockId).drop (page * AlertConsumer.BATCH_SIZE)

theorem nodup_waiting (s : Store) (stockId : String) : (s.waiting stockId).Nodup :=
  (s.alerts.nodup.sublist (List.filter_sublist.map _)).of_map _

/-- Marking by id takes the marked alerts, and no other, out of those that wait. -/
theorem waiting_announced (event : PriceUpdatedEvent) (s : Store) {alerts : List Alert}
    (h : alerts ⊆ s.waiting event.stockId) :
    (announced event s alerts).waiting event.stockId =
      (s.waiting event.stockId).filter fun alert => alert ∉ alerts := by
  rw [Store.waiting, announced, Collection.trigger, filter_map_mark]
  apply List.filter_congr
  intro alert halert
  have hdocs {a : Alert} (ha : a ∈ s.waiting event.stockId) : a ∈ s.alerts.docs :=
    (List.mem_filter.mp ha).1
  simp only [List.mem_map, not_exists, not_and, decide_eq_decide]
  refine ⟨fun hids hmem => hids alert hmem rfl, fun hmem a ha hid => hmem ?_⟩
  rwa [← List.inj_on_of_nodup_map s.alerts.nodup (hdocs (h ha)) (hdocs halert) hid]

theorem remaining_announce (event : PriceUpdatedEvent) (s : Store) (page : ℕ) :
    let batch := (s.remaining event.stockId page).take AlertConsumer.BATCH_SIZE
    (announced event s (batch.filter (fires event.newPrice))).remaining event.stockId (page + 1) =
      rest AlertConsumer.BATCH_SIZE (fires event.newPrice) (s.remaining event.stockId page) := by
  intro batch
  rw [Store.remaining, waiting_announced event s]
  · exact drop_unmarked (nodup_waiting s event.stockId) page
  · intro alert halert
    exact List.mem_of_mem_drop (List.mem_of_mem_take (List.mem_filter.mp halert).1)

/-- With fuel for every page, the loop ends, and what it has triggered and
announced is what a reader with a growing skip selects. -/
theorem run_pages (event : PriceUpdatedEvent) (fuel page totalTriggered : ℕ) (s : Store)
    (hfuel : (s.remaining event.stockId page).length / AlertConsumer.BATCH_SIZE < fuel) :
    let selected := marked AlertConsumer.BATCH_SIZE (fires event.newPrice)
      (s.remaining event.stockId page)
    (AlertConsumer.pages event fuel page totalTriggered).run exec answered s =
      (.ok (some (totalTriggered + selected.length)), announced event s selected) := by
  induction fuel generalizing page totalTriggered s with
  | zero => exact absurd hfuel (Nat.not_lt_zero _)
  | succ fuel ih =>
    have hsize : 0 < AlertConsumer.BATCH_SIZE := by decide
    set left := s.remaining event.stockId page with hleft
    have hfind : (exec (.findWaiting event.stockId (page * AlertConsumer.BATCH_SIZE)
        (some AlertConsumer.BATCH_SIZE)) s).1.docs = left.take AlertConsumer.BATCH_SIZE := rfl
    have hlen : (left.take AlertConsumer.BATCH_SIZE).length =
        min AlertConsumer.BATCH_SIZE left.length := List.length_take
    rw [AlertConsumer.pages, run_send_bind_done _ _ _ _ rfl]
    simp only [hfind]
    by_cases hempty : (left.take AlertConsumer.BATCH_SIZE).length = 0
    · have hnil : left = [] := List.length_eq_zero_iff.mp (by omega)
      rw [if_pos hempty, hnil, marked_of_short hsize]
      simp [exec]
    · rw [if_neg hempty, run_bind, run_announce, andThen_ok]
      by_cases hshort : (left.take AlertConsumer.BATCH_SIZE).length < AlertConsumer.BATCH_SIZE
      · rw [if_pos hshort, marked_of_short (by omega),
          List.take_of_length_le (by omega : left.length ≤ AlertConsumer.BATCH_SIZE)]
        simp [exec]
      · have hfull : AlertConsumer.BATCH_SIZE ≤ left.length := by omega
        have hrest := remaining_announce event s page
        have hfuel' : (rest AlertConsumer.BATCH_SIZE (fires event.newPrice) left).length /
            AlertConsumer.BATCH_SIZE < fuel := by
          have hle := Nat.div_le_div_right (c := AlertConsumer.BATCH_SIZE)
            (length_rest_le AlertConsumer.BATCH_SIZE (fires event.newPrice) left)
          have hpred := Nat.div_eq_sub_div hsize hfull
          omega
        rw [if_neg hshort, marked_of_full hsize hfull]
        simp only [← hleft] at hrest
        have hnext := ih (page + 1) (totalTriggered +
          ((left.take AlertConsumer.BATCH_SIZE).filter (fires event.newPrice)).length)
          (announced event s ((left.take AlertConsumer.BATCH_SIZE).filter (fires event.newPrice)))
          (by rwa [hrest])
        simp only [hrest, announced_append] at hnext
        rw [List.length_append, ← Nat.add_assoc]
        exact hnext

theorem run_onPriceUpdated (event : PriceUpdatedEvent) (s : Store) (extra : ℕ) :
    let selected := marked AlertConsumer.BATCH_SIZE (fires event.newPrice)
      (s.waiting event.stockId)
    (AlertConsumer.onPriceUpdated
      (s.alerts.docs.length / AlertConsumer.BATCH_SIZE + 1 + extra) event).run exec answered s =
      (.ok (some selected.length), announced event s selected) := by
  have hall : s.remaining event.stockId 0 = s.waiting event.stockId := by
    simp [Store.remaining]
  have hle : (s.waiting event.stockId).length ≤ s.alerts.docs.length := List.length_filter_le ..
  have hdiv := Nat.div_le_div_right (c := AlertConsumer.BATCH_SIZE) hle
  have hrun := run_pages event
    (s.alerts.docs.length / AlertConsumer.BATCH_SIZE + 1 + extra) 0 0 s (by rw [hall]; omega)
  simp only [hall, Nat.zero_add] at hrun
  exact hrun

/-- The unbatched check triggers every waiting alert that fires. -/
theorem alerts_checkAlertsForStock (stockId : String) (newPrice : ℚ) (s : Store) :
    ((AlertService.checkAlertsForStock stockId newPrice).run exec answered s).2.alerts =
      s.alerts.trigger (((s.waiting stockId).filter (fires newPrice)).map Alert.id) := by
  have hnotify (stock : Option Trading.Stock) (traders : List (String × Trading.Trader))
      (alerts : List Alert) : (AlertService.notifyAll newPrice stock traders alerts).Sends
        fun op => ∃ message, op = .emit message := by
    induction alerts with
    | nil => trivial
    | cons alert alerts ih =>
      rw [AlertService.notifyAll]
      split
      · exact ih
      · exact Sends.send ⟨_, rfl⟩ fun _ => ih
  have hkeeps (op : AlertOp) (x : Store) (hop : ∃ message, op = .emit message) :
      (exec op x).2.alerts = x.alerts := by
    obtain ⟨message, rfl⟩ := hop
    rfl
  have hfind : (exec (.findWaiting stockId 0 none) s).1.docs = s.waiting stockId := rfl
  rw [AlertService.checkAlertsForStock, run_send_bind_done _ _ _ _ rfl]
  simp only [hfind]
  split
  · rename_i hnone
    rw [List.length_eq_zero_iff.mp hnone]
    exact (trigger_nil _).symm
  · rw [run_send_bind_done _ _ _ _ rfl, run_send_bind_done _ _ _ _ rfl,
      run_send_bind_done _ _ _ _ rfl, (hnotify _ _ _).run_eq exec answered hkeeps]
    rfl

end Run

/-- No alert that fires at the event's price is still waiting. -/
def NoneLeft (event : PriceUpdatedEvent) (s : Store) : Prop :=
  ∀ alert ∈ s.waiting event.stockId, ¬fires event.newPrice alert

section Agreement
variable {event : PriceUpdatedEvent} {s : Store}

theorem noneLeft_announced_iff {selected : List Alert}
    (h : selected ⊆ s.waiting event.stockId) : NoneLeft event (announced event s selected) ↔
      ∀ alert ∈ s.waiting event.stockId, fires event.newPrice alert → alert ∈ selected := by
  rw [NoneLeft, waiting_announced event s h]
  simp only [List.mem_filter, decide_not, Bool.not_eq_true', decide_eq_false_iff_not, and_imp]
  exact forall₂_congr fun alert _ => not_imp_not

theorem marked_subset (event : PriceUpdatedEvent) (s : Store) :
    marked AlertConsumer.BATCH_SIZE (fires event.newPrice) (s.waiting event.stockId) ⊆
      s.waiting event.stockId :=
  fun _ h => (mem_of_mem_marked h).1

/-- Nothing is left over exactly where the worker passes over nothing that fires. -/
theorem noneLeft_marked_iff (event : PriceUpdatedEvent) (s : Store) :
    NoneLeft event (announced event s
        (marked AlertConsumer.BATCH_SIZE (fires event.newPrice) (s.waiting event.stockId))) ↔
      Covered AlertConsumer.BATCH_SIZE (fires event.newPrice) (s.waiting event.stockId) := by
  rw [noneLeft_announced_iff (marked_subset event s), covered_iff (nodup_waiting s event.stockId)]

theorem trigger_congr (c : Collection) {ids ids' : List String} (h : ∀ id, id ∈ ids ↔ id ∈ ids') :
    c.trigger ids = c.trigger ids' := by
  have hmark : Collection.mark ids = Collection.mark ids' := by
    funext alert
    simp only [Collection.mark, h]
  simp only [Collection.trigger, hmark]

/-- The worker marks what the unbatched check marks exactly where it leaves
nothing over. -/
theorem alerts_marked_eq_iff (event : PriceUpdatedEvent) (s : Store) :
    (announced event s (marked AlertConsumer.BATCH_SIZE (fires event.newPrice)
        (s.waiting event.stockId))).alerts =
      s.alerts.trigger
        (((s.waiting event.stockId).filter (fires event.newPrice)).map Alert.id) ↔
      Covered AlertConsumer.BATCH_SIZE (fires event.newPrice) (s.waiting event.stockId) := by
  constructor
  · intro heq
    have hsub : (s.waiting event.stockId).filter (fires event.newPrice) ⊆
        s.waiting event.stockId := List.filter_sublist.subset
    have hall : NoneLeft event (announced event s
        ((s.waiting event.stockId).filter (fires event.newPrice))) :=
      (noneLeft_announced_iff hsub).mpr fun alert ha hf => List.mem_filter.mpr ⟨ha, hf⟩
    rw [← noneLeft_marked_iff, NoneLeft, Store.waiting, heq]
    exact hall
  · intro hcov
    have hmem := (covered_iff (nodup_waiting s event.stockId)).mp hcov
    apply trigger_congr
    intro id
    simp only [List.mem_map, List.mem_filter]
    refine exists_congr fun alert => and_congr_left fun _ => ⟨mem_of_mem_marked, ?_⟩
    exact fun h => hmem alert h.1 h.2

/-- The worker finishes, and leaves no alert that fires over, marking what the
unbatched check marks, if and only if no alert it passes over fires. -/
theorem all_fire_iff (event : PriceUpdatedEvent) (s : Store) (extra : ℕ) :
    let out := (AlertConsumer.onPriceUpdated
      (s.alerts.docs.length / AlertConsumer.BATCH_SIZE + 1 + extra) event).run exec answered s
    let unbatched := (AlertService.checkAlertsForStock event.stockId event.newPrice).run
      exec answered s
    (∃ totalTriggered, out.1 = .ok (some totalTriggered)) ∧
      (NoneLeft event out.2 ↔
        Covered AlertConsumer.BATCH_SIZE (fires event.newPrice) (s.waiting event.stockId)) ∧
      (out.2.alerts = unbatched.2.alerts ↔
        Covered AlertConsumer.BATCH_SIZE (fires event.newPrice) (s.waiting event.stockId)) := by
  intro out unbatched
  have hout : out = _ := run_onPriceUpdated event s extra
  have hunbatched : unbatched.2.alerts = _ :=
    alerts_checkAlertsForStock event.stockId event.newPrice s
  rw [hout, hunbatched]
  exact ⟨⟨_, rfl⟩, noneLeft_marked_iff event s, alerts_marked_eq_iff event s⟩

end Agreement

section Example

/-- Alert number `n` of a stock, which fires from 10 up. -/
def crowdAlert (n : ℕ) : Alert where
  id := "alert" ++ ":" ++ toString n
  memberId := "m1"
  stockId := "s1"
  ticker := "ACME"
  targetPrice := .bson (some 10)
  direction := .above
  triggered := false
  memberEmail := "one@example.com"
  memberName := "Member One"

def crowd : Store where
  alerts :=
    { docs := (List.range 501).map crowdAlert
      nodup := by
        rw [List.map_map]
        exact List.nodup_range.map fun n m h => append_number_inj h }
  traders _ := none
  stocks _ := none
  outbox := []

def crowdEvent : PriceUpdatedEvent := ⟨"s1", "ACME", 12⟩

theorem waiting_crowd : crowd.waiting "s1" = crowd.alerts.docs := by
  rw [Store.waiting, List.filter_eq_self]
  intro alert h
  simp only [crowd, List.mem_map] at h
  obtain ⟨n, -, rfl⟩ := h
  rfl

/-- All 501 alerts fire, and one of them goes on waiting. -/
theorem crowd_left_over :
    ¬NoneLeft crowdEvent ((AlertConsumer.onPriceUpdated
      (crowd.alerts.docs.length / AlertConsumer.BATCH_SIZE + 1 + 0) crowdEvent).run
      exec answered crowd).2 := by
  have hfull : AlertConsumer.BATCH_SIZE ≤ crowd.alerts.docs.length := by
    simp [crowd, AlertConsumer.BATCH_SIZE]
  have hskipped : ∃ alert ∈ skipped AlertConsumer.BATCH_SIZE (fires crowdEvent.newPrice)
      crowd.alerts.docs, fires crowdEvent.newPrice alert := by
    refine ⟨crowdAlert 500, ?_, by decide⟩
    decide +kernel
  rw [run_onPriceUpdated, noneLeft_marked_iff, show crowdEvent.stockId = "s1" from rfl,
    waiting_crowd, covered_of_full (by decide) hfull]
  rintro ⟨hnone, -⟩
  obtain ⟨alert, halert, hfires⟩ := hskipped
  exact hnone alert halert hfires

end Example
end StockMarket.Alerts
