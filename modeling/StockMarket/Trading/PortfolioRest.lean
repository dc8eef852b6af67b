import StockMarket.Trading.PortfolioCache
import StockMarket.Trading.Atomicity

/-! # Portfolios at rest

Once no order is in flight, what the cached portfolio has not seen has cancelled out: an
order that changed a position either has dropped it, or is a sell that was rolled back.
-/

namespace StockMarket.Trading.Portfolio
open Interleaving Prog OrderService PositionService

section Unseen
variable {store : Store} {requests : ℕ → ClientRequest} {log newer older : List LogEntry} {j : ℕ}
  {memberId stockId : String}

theorem after_of_unchanged {x : Reaction TradingOp TradingOp.Reply}
    (hx : changed x ≠ some memberId) (before : Option Position) :
    after memberId stockId before x = before := by
  obtain ⟨op, reply⟩ := x
  cases op with
  | incPosition memberId' stockId' gte shares =>
    refine if_neg fun hyes => hx ?_
    rw [changed, if_pos hyes.1, hyes.2.1]
  | createPosition memberId' stockId' doc =>
    refine if_neg fun hyes => hx ?_
    rw [changed, if_pos hyes.1, hyes.2.1]
  | updatePosition memberId' stockId' shares avgBuyPrice totalInvested =>
    refine if_neg fun hyes => hx ?_
    rw [changed, hyes.1]
  | deletePosition memberId' stockId' =>
    refine if_neg fun hyes => hx ?_
    rw [changed, hyes.1]
  | _ => rfl

/-- Operations that change nothing of the member leave its positions. -/
theorem replay_unchanged (h : ∀ e ∈ newer, changed e.reaction ≠ some memberId) :
    replay store memberId stockId (newer ++ older) = replay store memberId stockId older := by
  induction newer with
  | nil => rfl
  | cons e newer ih =>
    rw [List.cons_append, replay, after_of_unchanged (h e List.mem_cons_self),
      ih fun x hx => h x (List.mem_cons_of_mem e hx)]

theorem inc_of_changed {x : Reaction TradingOp TradingOp.Reply} (hinc : isInc x.op = true)
    (hchanged : changed x = some memberId) :
    ∃ stockId gte shares position,
      x = ⟨.incPosition memberId stockId gte shares, some position⟩ := by
  obtain ⟨op, reply⟩ := x
  cases op with
  | incPosition memberId' stockId' gte shares =>
    obtain ⟨hsome, heq⟩ := Option.ite_none_right_eq_some.mp hchanged
    cases heq
    obtain ⟨position, rfl⟩ := Option.isSome_iff_exists.mp hsome
    exact ⟨stockId', gte, shares, position, rfl⟩
  | _ => cases hinc

/-- Where shares are only taken and given back, the position is told by their sum. -/
theorem replay_incs (hrecorded : Recorded (Observed store requests) (newer ++ older))
    (hinc : ∀ e ∈ newer, changed e.reaction = some memberId → isInc e.reaction.op = true) :
    replay store memberId stockId (newer ++ older) =
      (replay store memberId stockId older).map fun p => { p with
        shares := p.shares + (newer.map fun e => delta memberId stockId e.reaction).sum } := by
  induction newer with
  | nil => simp
  | cons e newer ih =>
    rw [List.cons_append] at hrecorded
    have ih := ih hrecorded.2 fun x hx => hinc x (List.mem_cons_of_mem e hx)
    rw [List.cons_append, replay, List.map_cons, List.sum_cons]
    by_cases hchanged : changed e.reaction = some memberId
    · obtain ⟨stockId', gte, shares, position, hx⟩ :=
        inc_of_changed (hinc e List.mem_cons_self hchanged) hchanged
      obtain ⟨before, hbefore, hposition⟩ := hrecorded.1.inc _ _ _ _ _ hx
      rw [hx]
      by_cases hid : stockId' = stockId
      · subst hid
        rw [ih] at hbefore
        obtain ⟨p, hp, rfl⟩ := Option.map_eq_some_iff.mp hbefore
        simp only [after, delta, Option.isSome_some, and_self, if_true, hp, hposition,
          Option.map_some, add_comm shares, add_assoc]
      · simp only [after, delta, hid, and_false, if_false, ih, zero_add]
    · rw [after_of_unchanged hchanged, delta_of_unchanged hchanged, zero_add, ih]

/-- An increment that has changed a position and is no rollback is a decrement. -/
theorem isDecrement_of_isInc {x : Reaction TradingOp TradingOp.Reply} (hinc : isInc x.op = true)
    (hchanged : changed x = some memberId) (hrollback : ¬isRollback x.op = true) :
    isDecrement x = true := by
  obtain ⟨stockId, gte, shares, position, rfl⟩ := inc_of_changed hinc hchanged
  cases gte with
  | none => exact absurd rfl hrollback
  | some gte => rfl

/-- Shares that were taken unseen are given back to a position that is there. -/
theorem rollback_found (hrecorded : Recorded (Observed store requests) (newer ++ older))
    (hinc : ∀ e ∈ newer, changed e.reaction = some memberId → isInc e.reaction.op = true)
    (hunseen : ∀ x ∈ own j older, changed x = none) {shares : ℤ} :
    ⟨.incPosition memberId stockId none shares, none⟩ ∉ own j (newer ++ older) := by
  intro hin
  obtain ⟨above, below, hlog⟩ := List.append_of_mem (mem_own.mp hin)
  have hrecorded' := hrecorded
  rw [hlog] at hrecorded'
  have hmissing := hrecorded'.split.missing memberId stockId shares rfl
  obtain ⟨-, -, gte, position, htaken⟩ := hrecorded'.split.may
  obtain ⟨between, bottom, rfl⟩ := List.append_of_mem (mem_own.mp htaken)
  have hsplit : newer ++ older = (above ++ ⟨j, .incPosition memberId stockId none shares, none⟩ ::
      between) ++ ⟨j, .incPosition memberId stockId (some gte) (-shares), some position⟩ ::
        bottom := by
    rw [hlog, List.append_assoc, List.cons_append]
  rcases List.append_eq_append_iff.mp hsplit with ⟨rest, -, holder⟩ | ⟨rest, hnewer, -⟩
  · have hseen : ⟨.incPosition memberId stockId (some gte) (-shares), some position⟩ ∈
        own j older := by
      simp [holder]
    cases hunseen _ hseen
  · have hbetween : replay store memberId stockId (between ++ _ :: bottom) = _ :=
      replay_incs hrecorded'.older.2 fun e he => hinc e (by simp [hnewer, he])
    rw [hmissing] at hbetween
    simp [replay, after] at hbetween

/-- At rest, what a call has changed unseen cancels out. -/
theorem moved_unseen (hrecorded : Recorded (Observed store requests) (newer ++ older))
    (hharmless : Harmless (RedisKeys.portfolioCache memberId) newer (newer ++ older))
    (hinc : ∀ e ∈ newer, changed e.reaction = some memberId → isInc e.reaction.op = true)
    (hsettled : (∃ x ∈ own j (newer ++ older), changed x = some memberId) →
      Settled memberId (own j (newer ++ older))) :
    moved memberId stockId (own j newer) = 0 := by
  by_cases hsome : ∃ x ∈ own j newer, changed x = some memberId
  swap
  · exact moved_of_unchanged fun x hx hchanged => hsome ⟨x, hx, hchanged⟩
  obtain ⟨x, hx, hchanged⟩ := hsome
  have he := mem_own.mp hx
  obtain ⟨hundropped, hpaired⟩ := hharmless _ he (changedUnder_iff.mpr hchanged)
  obtain ⟨d, hd, hcaller, hdecrement⟩ :
      ∃ d ∈ newer, d.caller = j ∧ isDecrement d.reaction = true := by
    by_cases hrollback : isRollback x.op = true
    · exact hpaired hrollback
    · exact ⟨_, he, rfl, isDecrement_of_isInc (hinc _ he hchanged) hchanged hrollback⟩
  -- nothing is changed before the shares are taken
  have hunseen : ∀ y ∈ own j older, changed y = none := by
    obtain ⟨above, below, rfl⟩ := List.append_of_mem hd
    rw [List.append_assoc, List.cons_append] at hrecorded
    have hmay := hrecorded.split.may
    obtain ⟨_, op, reply⟩ := d
    subst hcaller
    cases op with
    | incPosition memberId' stockId' gte shares =>
      cases gte with
      | none => cases hdecrement
      | some gte =>
        intro y hy
        refine (hmay.2 y ?_).2
        rw [own_append]
        exact List.mem_append_right _ hy
    | _ => cases hdecrement
  rcases hsettled ⟨x, mem_own.mpr (List.mem_append_left _ he), hchanged⟩ with
    hdrop | ⟨-, hmoved | ⟨stockId', shares, hmissing⟩⟩
  · exact absurd ⟨_, mem_own.mp hdrop, rfl, rfl⟩ hundropped
  · have hsum := hmoved stockId
    have holder : moved memberId stockId (own j older) = 0 :=
      moved_of_unchanged fun y hy => by simp [hunseen y hy]
    rwa [own_append, moved_append, holder, add_zero] at hsum
  · exact absurd hmissing (rollback_found hrecorded hinc hunseen)

/-- At rest, the positions are those the portfolio was read from. -/
theorem replay_at_rest (hrecorded : Recorded (Observed store requests) (newer ++ older))
    (hharmless : Harmless (RedisKeys.portfolioCache memberId) newer (newer ++ older))
    (hsettled : ∀ j, (∃ x ∈ own j (newer ++ older), changed x = some memberId) →
      Settled memberId (own j (newer ++ older))) :
    replay store memberId stockId (newer ++ older) = replay store memberId stockId older := by
  have hinc : ∀ e ∈ newer, changed e.reaction = some memberId → isInc e.reaction.op = true := by
    intro e he hchanged
    have hin : e.reaction ∈ own e.caller (newer ++ older) := mem_own.mpr (List.mem_append_left _ he)
    rcases hsettled e.caller ⟨_, hin, hchanged⟩ with hdrop | ⟨hincs, -⟩
    · exact absurd ⟨_, mem_own.mp hdrop, rfl, rfl⟩
        (hharmless e he (changedUnder_iff.mpr hchanged)).1
    · exact hincs _ hin (by simp [hchanged])
  have hsum : (newer.map fun e => delta memberId stockId e.reaction).sum = 0 := by
    rw [sum_eq_tally]
    exact Finset.sum_eq_zero fun j _ => moved_unseen hrecorded hharmless hinc (hsettled j)
  rw [replay_incs hrecorded hinc, hsum]
  simp

end Unseen

/-- Every order that has begun has returned or thrown. -/
def NoneInFlight (requests : ℕ → ClientRequest) (c : State) : Prop :=
  ∀ i r, requests i = .order r → own i c.log = [] ∨ (c.result i).isSome

section Run
variable {remote : Wallet.Faults} {store : Store} {requests : ℕ → ClientRequest}
  {log newer older : List LogEntry} {memberId : String} {summary : PortfolioSummary}

/-- Whoever changes a position of the member is an order of the member. -/
theorem Consistent.order_of_changed {s : Store} {e : LogEntry}
    (h : Consistent store requests s log) (he : e ∈ log)
    (hchanged : changed e.reaction = some memberId) :
    ∃ r, requests e.caller = .order r ∧ r.memberId = memberId := by
  obtain ⟨above, below, rfl⟩ := List.append_of_mem he
  have htrades := (may_of_changed h.recorded.split.may hchanged).1
  cases hrequest : requests e.caller with
  | order r =>
    rw [hrequest] at htrades
    exact ⟨r, rfl, htrades⟩
  | getPortfolio memberId' =>
    rw [hrequest] at htrades
    exact htrades.elim

/-- Prices that are the same make the same portfolio. -/
theorem summaryOf_congr {stocks stocks' : String → Option Stock}
    (h : ∀ stockId, price (stocks stockId) = price (stocks' stockId))
    (positions : List (String × Position)) :
    summaryOf stocks positions = summaryOf stocks' positions := by
  have hentries : (fun e : String × Position => portfolioPosition e.1 e.2 (stocks e.1)) =
      fun e => portfolioPosition e.1 e.2 (stocks' e.1) :=
    funext fun e => portfolioPosition_congr (h e.1) e.2
  rw [summaryOf, summaryOf, hentries]

/-- A portfolio of positions that have not changed since is the stored one. -/
theorem Consistent.reports {s : Store} {positions : List (String × Position)}
    (h : Consistent store requests s log)
    (hlists : Lists (fun stockId => replay store memberId stockId older) positions)
    (hsame : ∀ stockId, replay store memberId stockId log = replay store memberId stockId older) :
    Reports s memberId (summaryOf store.stocks positions) := by
  refine ⟨positions, ?_, summaryOf_congr (fun stockId => (h.stocks stockId).symm) positions⟩
  have hstored : s.position memberId = fun stockId => replay store memberId stockId older :=
    funext fun stockId => (h.stored memberId stockId).trans (hsame stockId)
  exact hlists.perm (hstored ▸ lists_positionsOf s memberId)

theorem NoneInFlight.settled {c : State} {j : ℕ} {r : Request} (h : NoneInFlight requests c)
    (hconforms : c.Conforms (protocol requests)) (horder : requests j = .order r)
    (hbegun : own j c.log ≠ []) : Settled r.memberId (own j c.log) := by
  obtain ⟨res, hres⟩ := Option.isSome_iff_exists.mp ((h j r horder).resolve_left hbegun)
  have hpost := hconforms.ended hres
  simp only [protocol, ClientRequest.Post, horder] at hpost
  exact hpost

/-- A portfolio that is looked at while no order is in flight is the stored one. -/
theorem portfolio_current (remote : Wallet.Faults) (store : Store) (requests : ℕ → ClientRequest)
    (before later : Schedule) (i : ℕ) (memberId : String) (summary : PortfolioSummary)
    (hcold : Cold store)
    (halong : (timely store).Along (backend remote) (State.start store requests) (before ++ later))
    (hrequest : requests i = .getPortfolio memberId)
    (hbegun : own i ((State.start store requests).run (backend remote) before).log = [])
    (hrest : NoneInFlight requests ((State.start store requests).run (backend remote) before))
    (hquiet : ∀ j o, .step j o ∈ later → (requests j).isOrder = false)
    (hreturned : ((State.start store requests).run (backend remote) (before ++ later)).result i =
      some (.ok (.inr summary))) :
    Reports ((State.start store requests).run (backend remote) (before ++ later)).store memberId
      summary := by
  have hconforms :=
    (consistent_run hcold ((Assumption.along_append _ _ _ before later).mp halong).1).1
  obtain ⟨hconforms', hconsistent⟩ := consistent_run hcold halong
  have hpost := hconforms'.ended hreturned
  simp only [protocol, ClientRequest.Post, hrequest] at hpost
  rw [Config.run_append] at hpost hconsistent ⊢
  set c := (State.start store requests).run (backend remote) before
  obtain ⟨added, hadded, hpicked⟩ := Config.log_run (backend remote) c later
  rw [hadded] at hpost hconsistent
  -- what is carried out meanwhile is no order's, so it changes nothing
  have hunchanged : ∀ e ∈ added, changed e.reaction ≠ some memberId := by
    intro e he hchanged
    obtain ⟨r, horder, -⟩ := hconsistent.order_of_changed (List.mem_append_left _ he) hchanged
    obtain ⟨o, hstep⟩ := hpicked e he
    have hno := hquiet e.caller o hstep
    simp [horder, ClientRequest.isOrder] at hno
  have hsplit {x : Reaction TradingOp TradingOp.Reply} (hx : x ∈ own i (added ++ c.log)) :
      ∃ newer between, added ++ c.log = newer ++ ⟨i, x⟩ :: (between ++ c.log) ∧ between ⊆ added ∧
        ∀ stockId, replay store memberId stockId (added ++ c.log) =
          replay store memberId stockId (between ++ c.log) := by
    rw [own_append, hbegun, List.append_nil] at hx
    obtain ⟨newer, between, rfl⟩ := List.append_of_mem (mem_own.mp hx)
    refine ⟨newer, between, by simp, by simp, ?_⟩
    intro stockId
    rw [← List.singleton_append, ← List.append_assoc, List.append_assoc]
    exact replay_unchanged fun e he => hunchanged e (by simp at he ⊢; tauto)
  have hsettled (between : List LogEntry) (hbetween : between ⊆ added) (j : ℕ)
      (hchanges : ∃ x ∈ own j (between ++ c.log), changed x = some memberId) :
      Settled memberId (own j (between ++ c.log)) := by
    obtain ⟨x, hx, hchanged⟩ := hchanges
    have hin : ⟨j, x⟩ ∈ added ++ c.log :=
      List.mem_append.mpr ((List.mem_append.mp (mem_own.mp hx)).imp_left fun h => hbetween h)
    obtain ⟨r, horder, rfl⟩ := hconsistent.order_of_changed hin hchanged
    have hidle : own j between = [] := by
      rw [List.eq_nil_iff_forall_not_mem]
      intro y hy
      obtain ⟨o, hstep⟩ := hpicked _ (hbetween (mem_own.mp hy))
      have hno := hquiet j o hstep
      simp [horder, ClientRequest.isOrder] at hno
    rw [own_append, hidle, List.nil_append] at hx ⊢
    exact hrest.settled hconforms horder (List.ne_nil_of_mem hx)
  have hrecorded := hconsistent.recorded
  rcases hpost summary rfl with hhit | hcomputed
  · obtain ⟨newer, between, hlog, hbetween, hsame⟩ := hsplit hhit
    rw [hlog] at hrecorded
    obtain ⟨filler, unseen, older, positions, -, hread, rfl, hharmless⟩ :=
      hrecorded.split.hit memberId summary rfl
    have hrecorded' := hrecorded.older.2
    have hcancels := hsettled between hbetween
    rw [hread] at hharmless hcancels hrecorded'
    refine hconsistent.reports (hrecorded'.split.read memberId positions rfl) ?_
    intro stockId
    rw [hsame, hread, replay_at_rest hrecorded' hharmless hcancels]
    rfl
  · obtain ⟨positions, hread, rfl⟩ := summary_of_computed hrecorded hcomputed
    obtain ⟨newer, between, hlog, -, hsame⟩ := hsplit hread
    rw [hlog] at hrecorded
    exact hconsistent.reports (hrecorded.split.read memberId positions rfl) hsame

end Run

section Example

instance (store s : Store) (log : List LogEntry) (i : ℕ) (op : TradingOp) (o : Outcome Exception) :
    Decidable ((timely store).call s log i op o) :=
  inferInstanceAs (Decidable ((mayThrow op = true ∨ o = .done) ∧ InTime s log i op))

instance (store : Store) : DecidablePred (timely store).env
  | .setStock _ _ => inferInstanceAs (Decidable (_ = (_ : ℚ)))
  | .expire _ | .evictStock _ | .evictPortfolio _ | .tick _ | .setTrader _ _ => .isTrue trivial

/-- A sell of five of the member's ten shares, and looks at the portfolio. -/
def sellAndLook : ℕ → ClientRequest
  | 0 => .order (.sell "m" fiveShares)
  | _ => .getPortfolio "m"

def shown (shares : ℤ) : PortfolioSummary :=
  summaryOf sampleStore.stocks [("s", { samplePosition with shares := shares })]

/-- The first look is over when the sell begins, whose credit fails. -/
def lookedBefore : Schedule :=
  List.replicate 6 (.step 1 .done) ++ List.replicate 5 (.step 0 .done) ++
    [.step 0 (.failed (.axios none none))] ++ List.replicate 3 (.step 0 .done)

/-- The first look comes between the decrement and the credit that fails. -/
def lookedBetween : Schedule :=
  List.replicate 7 (.step 0 .done) ++ List.replicate 4 (.step 1 .done) ++
    [.step 0 (.failed (.axios none none))] ++ List.replicate 3 (.step 0 .done)

theorem noneInFlight_of_sold {c : State} (h : (c.result 0).isSome) :
    NoneInFlight sellAndLook c := by
  intro i r hrequest
  cases i with
  | zero => exact .inr h
  | succ i => cases hrequest

theorem portfolio_current_lookedBefore :
    Reports ((State.start sampleStore sellAndLook).run (backend Wallet.answered)
      (lookedBefore ++ [.step 2 .done])).store "m" (shown 10) :=
  portfolio_current Wallet.answered sampleStore sellAndLook lookedBefore [.step 2 .done] 2 "m"
    (shown 10) (fun _ => ⟨rfl, rfl⟩) (by decide +kernel) rfl (by decide +kernel)
    (noneInFlight_of_sold (by decide +kernel)) (by simp [sellAndLook, ClientRequest.isOrder])
    (by decide +kernel)

/-- The member is told of five shares after the rollback has restored the ten. -/
theorem rolled_back_sell_shown :
    let c := (State.start sampleStore sellAndLook).run (backend Wallet.answered) lookedBetween
    let c' := c.run (backend Wallet.answered) [.step 2 .done]
    NoneInFlight sellAndLook c ∧ own 2 c.log = [] ∧ c'.result 2 = some (.ok (.inr (shown 5))) ∧
      ¬Reports c'.store "m" (shown 5) := by
  refine ⟨noneInFlight_of_sold (by decide +kernel), by decide +kernel, by decide +kernel, ?_⟩
  rintro ⟨positions, hperm, hshown⟩
  have hstored : positionsOf (((State.start sampleStore sellAndLook).run (backend Wallet.answered)
      lookedBetween).run (backend Wallet.answered) [.step 2 .done]).store "m" =
        [("s", samplePosition)] := by
    decide +kernel
  rw [hstored, List.perm_singleton] at hperm
  subst hperm
  revert hshown
  decide +kernel

end Example

end StockMarket.Trading.Portfolio
