import StockMarket.Trading.Protocol
import StockMarket.Trading.Atomicity
import StockMarket.Interleaving.Tally

/-! # Shares without the lock

When locks expire, calls overlap, and only the guarded decrement and the unique
index are left to protect a position. They keep its shares between 0 and what
the calls have brought. What falls short of that is lost by a deletion of a
position that has shares, or by an addition to one that is gone.
-/

namespace StockMarket.Trading
open Interleaving Prog OrderService

/-- What the calls for one member and one stock have brought so far. -/
def netOn (memberId stockId : String) (requests : ℕ → Request) (i : ℕ) (h : History) : ℤ :=
  if (requests i).On memberId stockId then (requests i).net h else 0

/-- The shares an operation loses: those of a position it deletes, and those it
adds to a position that is not there. -/
def lostShares (memberId stockId : String) (s : Store) : TradingOp → ℤ
  | .deletePosition owner stock =>
      if owner = memberId ∧ stock = stockId then s.shares memberId stockId else 0
  | .updatePosition owner stock shares _ _ =>
      if (owner = memberId ∧ stock = stockId) ∧ s.position memberId stockId = none then shares
      else 0
  | _ => 0

def TradingOp.target : TradingOp → Option (String × String)
  | .incPosition memberId stockId _ _ => some (memberId, stockId)
  | .createPosition memberId stockId _ => some (memberId, stockId)
  | .updatePosition memberId stockId _ _ _ => some (memberId, stockId)
  | .deletePosition memberId stockId => some (memberId, stockId)
  | _ => none

section Shares
variable {remote : Wallet.Faults} {s : Store} {memberId stockId owner stock : String}

theorem shares_setPosition_of_ne (h : (owner, stock) ≠ (memberId, stockId)) (position : Position) :
    (s.setPosition owner stock position).shares memberId stockId = s.shares memberId stockId := by
  simp only [Store.shares, Store.position, Store.setPosition, AList.lookup_insert_ne h.symm]

theorem shares_deletePosition_of_ne (h : (owner, stock) ≠ (memberId, stockId)) :
    (s.deletePosition owner stock).shares memberId stockId = s.shares memberId stockId := by
  simp only [Store.shares, Store.position, Store.deletePosition, AList.lookup_erase_ne h.symm]

theorem shares_deletePosition (s : Store) (memberId stockId : String) :
    (s.deletePosition memberId stockId).shares memberId stockId = 0 := by
  rw [Store.shares, position_deletePosition]
  rfl

variable (remote s memberId stockId) in
/-- The guarded `$inc` counts where it answers a position. -/
theorem exec_incPosition_shares (gte : Option ℤ) (shares : ℤ) :
    ∃ reply s', exec remote (.incPosition memberId stockId gte shares) s = (reply, s') ∧
      (reply.isSome → gte.all (· ≤ s.shares memberId stockId)) ∧
      s'.shares memberId stockId = s.shares memberId stockId +
        if reply.isSome then shares else 0 := by
  rcases hposition : s.position memberId stockId with _ | position
  · exact ⟨none, s, by simp only [exec, hposition], by simp, (add_zero _).symm⟩
  rw [shares_eq hposition]
  by_cases hgte : gte.all (· ≤ position.shares)
  · refine ⟨_, _, exec_incPosition remote hposition gte hgte shares, fun _ => hgte, ?_⟩
    rw [shares_setPosition]
    rfl
  · refine ⟨none, s, by simp only [exec, hposition, if_neg hgte], by simp, ?_⟩
    rw [shares_eq hposition]
    exact (add_zero _).symm

variable (remote s memberId stockId) in
/-- A created position has the shares of the document. -/
theorem exec_createPosition_shares (doc : Position) :
    ∃ created s', exec remote (.createPosition memberId stockId doc) s = (created, s') ∧
      s'.shares memberId stockId = s.shares memberId stockId +
        if created then doc.shares else 0 := by
  rcases hposition : s.position memberId stockId with _ | position
  · refine ⟨true, s.setPosition memberId stockId doc, by simp only [exec, hposition], ?_⟩
    have hnone : s.shares memberId stockId = 0 := by simp [Store.shares, hposition]
    rw [shares_setPosition, hnone]
    exact (zero_add _).symm
  · exact ⟨false, s, by simp only [exec, hposition], (add_zero _).symm⟩

variable (remote s memberId stockId) in
/-- The `$inc` of a purchase is lost where there is no position. -/
theorem exec_updatePosition_shares (shares : ℤ) (avgBuyPrice totalInvested : Number) :
    (exec remote (.updatePosition memberId stockId shares avgBuyPrice totalInvested) s).2.shares
        memberId stockId + lostShares memberId stockId s
          (.updatePosition memberId stockId shares avgBuyPrice totalInvested) =
      s.shares memberId stockId + shares := by
  rcases hposition : s.position memberId stockId with _ | position
  · have hlost : lostShares memberId stockId s
        (.updatePosition memberId stockId shares avgBuyPrice totalInvested) = shares :=
      if_pos ⟨⟨rfl, rfl⟩, hposition⟩
    simp only [exec, hposition, hlost]
  · have hlost : lostShares memberId stockId s
        (.updatePosition memberId stockId shares avgBuyPrice totalInvested) = 0 :=
      if_neg fun h => by simp [hposition] at h
    simp only [exec, hposition, hlost, shares_setPosition, shares_eq hposition, add_zero]

theorem shares_exec_elsewhere {op : TradingOp} (h : op.target ≠ some (memberId, stockId)) :
    (exec remote op s).2.shares memberId stockId = s.shares memberId stockId := by
  have hne {owner stock : String} (ht : op.target = some (owner, stock)) :
      (owner, stock) ≠ (memberId, stockId) := fun heq => h (ht.trans (congrArg some heq))
  cases op with
  | incPosition owner stock gte shares =>
    simp only [exec]
    split
    · split
      · exact shares_setPosition_of_ne (hne rfl) _
      · rfl
    · rfl
  | createPosition owner stock doc =>
    simp only [exec]
    split
    · rfl
    · exact shares_setPosition_of_ne (hne rfl) _
  | updatePosition owner stock shares avgBuyPrice totalInvested =>
    simp only [exec]
    split
    · exact shares_setPosition_of_ne (hne rfl) _
    · rfl
  | deletePosition owner stock => exact shares_deletePosition_of_ne (hne rfl)
  | setLock key token =>
    simp only [exec]
    split <;> rfl
  | evalRelease key token =>
    simp only [exec]
    split <;> rfl
  | _ => rfl

end Shares

section Step
variable {remote : Wallet.Faults} {requests : ℕ → Request} {s : Store} {log : List LogEntry}
  {memberId stockId : String} {i : ℕ} {h : History} {op : TradingOp}

/-- A call writes only the position its request is about. -/
theorem Request.May.target {r : Request} (hmay : r.May h op) {owner stock : String}
    (ht : op.target = some (owner, stock)) : r.On owner stock := by
  cases op with
  | incPosition memberId stockId gte shares =>
    obtain ⟨dto, rfl, rfl, -⟩ := hmay
    cases ht
    exact ⟨rfl, rfl⟩
  | createPosition memberId stockId doc =>
    obtain ⟨dto, rfl, rfl, -⟩ := hmay
    cases ht
    exact ⟨rfl, rfl⟩
  | updatePosition memberId stockId shares avgBuyPrice totalInvested =>
    obtain ⟨dto, rfl, rfl, -⟩ := hmay
    cases ht
    exact ⟨rfl, rfl⟩
  | deletePosition memberId stockId =>
    obtain ⟨dto, rfl, rfl⟩ := hmay
    cases ht
    exact ⟨rfl, rfl⟩
  | _ => cases ht

theorem netOn_buy {dto : PlaceOrderDto} (hr : requests i = .buy memberId dto) (h : History) :
    netOn memberId dto.stockId requests i h = if h.any isUpsert then (dto.shares : ℤ) else 0 := by
  rw [netOn, hr]
  exact if_pos ⟨rfl, rfl⟩

theorem netOn_sell {dto : PlaceOrderDto} (hr : requests i = .sell memberId dto) (h : History) :
    netOn memberId dto.stockId requests i h =
      if h.any isDecrement ∧ ¬h.any isRestore then -(dto.shares : ℤ) else 0 := by
  rw [netOn, hr]
  exact if_pos ⟨rfl, rfl⟩

/-- Only a write of its position changes what a call has brought. -/
theorem netOn_elsewhere (hmay : (requests i).May h op)
    (ht : op.target ≠ some (memberId, stockId)) (reply : op.Reply) :
    netOn memberId stockId requests i (⟨op, reply⟩ :: h) = netOn memberId stockId requests i h := by
  by_cases hon : (requests i).On memberId stockId
  · -- a write would be to the position of the request
    have hnone : op.target = none := by
      rcases htarget : op.target with _ | ⟨owner, stock⟩
      · rfl
      · obtain ⟨rfl, rfl⟩ := hmay.target htarget
        rw [← hon.1, ← hon.2] at ht
        exact absurd htarget ht
    have hnet : (requests i).net (⟨op, reply⟩ :: h) = (requests i).net h := by
      generalize requests i = r
      cases op <;> first | (cases r <;> rfl) | cases hnone
    rw [netOn, netOn, hnet]
  · rw [netOn, netOn, if_neg hon, if_neg hon]

theorem lostShares_of_ne (ht : op.target ≠ some (memberId, stockId)) :
    lostShares memberId stockId s op = 0 := by
  cases op with
  | deletePosition owner stock =>
    exact if_neg fun heq => ht (by rw [TradingOp.target, heq.1, heq.2])
  | updatePosition owner stock shares avgBuyPrice totalInvested =>
    exact if_neg fun heq => ht (by rw [TradingOp.target, heq.1.1, heq.1.2])
  | _ => rfl

variable (remote s memberId stockId) in
/-- One operation changes the shares by what it brings its sender, less what it
loses. -/
theorem shares_step (hmay : (requests i).May h op) :
    (exec remote op s).2.shares memberId stockId + lostShares memberId stockId s op =
      s.shares memberId stockId + (netOn memberId stockId requests i
        (⟨op, (exec remote op s).1⟩ :: h) - netOn memberId stockId requests i h) := by
  by_cases ht : op.target = some (memberId, stockId)
  swap
  · rw [shares_exec_elsewhere ht, netOn_elsewhere hmay ht, lostShares_of_ne ht, sub_self]
  cases op with
  | incPosition owner stock gte shares =>
    cases ht
    obtain ⟨dto, hr, rfl, hcase⟩ := hmay
    obtain ⟨reply, s', hexec, -, hshares⟩ :=
      exec_incPosition_shares remote s memberId dto.stockId gte shares
    have hlost : lostShares memberId dto.stockId s
        (.incPosition memberId dto.stockId gte shares) = 0 := rfl
    rw [hexec, netOn_sell hr, netOn_sell hr, hlost]
    dsimp only
    rw [hshares, add_zero, add_right_inj]
    rcases hcase with ⟨rfl, rfl, hdecrement, hrestore⟩ | ⟨rfl, rfl, hdecrement, hrestore⟩
    · cases reply <;> simp [isDecrement, isRestore, hdecrement, hrestore]
    · cases reply <;> simp [isDecrement, isRestore, hdecrement, hrestore]
  | createPosition owner stock doc =>
    cases ht
    obtain ⟨dto, hr, rfl, hdoc, hupsert⟩ := hmay
    obtain ⟨created, s', hexec, hshares⟩ :=
      exec_createPosition_shares remote s memberId dto.stockId doc
    have hlost : lostShares memberId dto.stockId s
        (.createPosition memberId dto.stockId doc) = 0 := rfl
    rw [hexec, netOn_buy hr, netOn_buy hr, hlost]
    dsimp only
    rw [hshares, add_zero, add_right_inj]
    cases created <;> simp [isUpsert, hupsert, hdoc]
  | updatePosition owner stock shares avgBuyPrice totalInvested =>
    cases ht
    obtain ⟨dto, hr, rfl, rfl, hupsert⟩ := hmay
    rw [exec_updatePosition_shares, netOn_buy hr, netOn_buy hr]
    simp [isUpsert, hupsert]
  | deletePosition owner stock =>
    cases ht
    obtain ⟨dto, hr, rfl⟩ := hmay
    have hlost : lostShares memberId dto.stockId s (.deletePosition memberId dto.stockId) =
        s.shares memberId dto.stockId := if_pos ⟨rfl, rfl⟩
    rw [netOn_sell hr, netOn_sell hr, hlost]
    simp [exec, shares_deletePosition, isDecrement, isRestore]
  | _ => cases ht

/-- An operation never makes shares negative: a sell takes only what is there. -/
theorem shares_exec_nonneg (hmay : (requests i).May h op) (hs : 0 ≤ s.shares memberId stockId) :
    0 ≤ (exec remote op s).2.shares memberId stockId := by
  by_cases ht : op.target = some (memberId, stockId)
  swap
  · rwa [shares_exec_elsewhere ht]
  cases op with
  | incPosition owner stock gte shares =>
    cases ht
    obtain ⟨dto, hr, rfl, hcase⟩ := hmay
    obtain ⟨reply, s', hexec, hguard, hshares⟩ :=
      exec_incPosition_shares remote s memberId dto.stockId gte shares
    rw [hexec, hshares]
    split
    · rename_i hreply
      rcases hcase with ⟨rfl, rfl, -⟩ | ⟨rfl, rfl, -⟩
      · have hle : (dto.shares : ℤ) ≤ s.shares memberId dto.stockId := by
          simpa using hguard hreply
        omega
      · omega
    · rwa [add_zero]
  | createPosition owner stock doc =>
    cases ht
    obtain ⟨dto, -, rfl, hdoc, -⟩ := hmay
    obtain ⟨created, s', hexec, hshares⟩ :=
      exec_createPosition_shares remote s memberId dto.stockId doc
    rw [hexec, hshares]
    split <;> omega
  | updatePosition owner stock shares avgBuyPrice totalInvested =>
    cases ht
    obtain ⟨dto, -, rfl, rfl, -⟩ := hmay
    have hupdate := exec_updatePosition_shares remote s memberId dto.stockId dto.shares
      avgBuyPrice totalInvested
    rw [lostShares] at hupdate
    split at hupdate <;> omega
  | deletePosition owner stock =>
    cases ht
    exact (shares_deletePosition ..).ge
  | _ => cases ht

theorem lostShares_nonneg (hmay : (requests i).May h op) (hs : 0 ≤ s.shares memberId stockId) :
    0 ≤ lostShares memberId stockId s op := by
  cases op with
  | deletePosition owner stock =>
    simp only [lostShares]
    split <;> omega
  | updatePosition owner stock shares avgBuyPrice totalInvested =>
    obtain ⟨dto, -, -, rfl, -⟩ := hmay
    simp only [lostShares]
    split <;> omega
  | _ => exact le_refl 0

end Step

/-- Nothing is assumed of a schedule: calls throw and crash, locks expire. -/
def unrestricted : Assumption ℕ TradingOp TradingOp.Reply Store Environment Exception where
  call _ _ _ _ _ := True
  env _ := True

/-- A position is only deleted when it has no shares left, and only added to
when it is there. -/
def keepsShares (memberId stockId : String) :
    Assumption ℕ TradingOp TradingOp.Reply Store Environment Exception where
  call s _ _ op o := o.applies →
    match op with
    | .deletePosition owner stock =>
        owner = memberId ∧ stock = stockId → s.shares memberId stockId = 0
    | .updatePosition owner stock _ _ _ =>
        owner = memberId ∧ stock = stockId → s.position memberId stockId ≠ none
    | _ => True
  env _ := True

section Run
variable {remote : Wallet.Faults} {requests : ℕ → Request} {memberId stockId : String} {c : State}

/-- The calls keep to their protocol, and no shares are owed. -/
def Sound (memberId stockId : String) (requests : ℕ → Request) (c : State) : Prop :=
  c.Conforms (protocol requests) ∧ 0 ≤ c.store.shares memberId stockId

/-- What the calls have brought and the position does not have. -/
def missing (memberId stockId : String) (requests : ℕ → Request) (c : State) : ℤ :=
  tally (netOn memberId stockId requests) c.log - c.store.shares memberId stockId

theorem lostShares_eq_zero_iff {h : History} {i : ℕ} {op : TradingOp} {s : Store}
    {log : List LogEntry} {o : Outcome Exception} (hmay : (requests i).May h op)
    (ho : o.applies) : lostShares memberId stockId s op = 0 ↔
      (keepsShares memberId stockId).call s log i op o := by
  cases op with
  | deletePosition owner stock =>
    simp only [lostShares, keepsShares, ho, true_implies]
    split <;> simp_all
  | updatePosition owner stock shares avgBuyPrice totalInvested =>
    obtain ⟨dto, -, -, rfl, -⟩ := hmay
    have hpos := dto.shares_pos
    simp only [lostShares, keepsShares, ho, true_implies]
    split
    · rename_i hlost
      simp only [hlost, and_self, true_implies, ne_eq, not_true_eq_false, iff_false]
      omega
    · rename_i hkept
      exact iff_of_true rfl fun hhere hnone => hkept ⟨hhere, hnone⟩
  | _ => exact iff_of_true rfl fun _ => trivial

theorem shares_env (remote : Wallet.Faults) (y : Environment) (s : Store) :
    ((backend remote).env y s).shares memberId stockId = s.shares memberId stockId := by
  cases y <;> rfl

theorem netOn_nil (i : ℕ) : netOn memberId stockId requests i [] = 0 := by
  rw [netOn]
  cases requests i <;> simp [Request.net]

theorem conforms_step (remote : Wallet.Faults) (hc : c.Conforms (protocol requests))
    (ch : Choice ℕ Environment Exception) :
    (c.step (backend remote) ch).Conforms (protocol requests) := by
  refine (Config.step_cases (A := unrestricted) hc (fun _ _ _ _ _ _ => trivial) ch ?_).1
  cases ch with
  | step i o =>
    simp only [Assumption.Meets]
    split <;> trivial
  | crash i => trivial
  | env y => trivial

/-- An operation that is carried out makes up for what it loses. -/
theorem missing_applied (remote : Wallet.Faults) (memberId stockId : String) {i : ℕ}
    {op : TradingOp} {next : op.Reply → Call (Option Order)}
    {failed : Exception → Call (Option Order)} {o : Outcome Exception}
    (hmay : (requests i).May (own i c.log) op) (hi : c.calls i = some (.call op next failed))
    (ho : o.applies) :
    missing memberId stockId requests (c.step (backend remote) (.step i o)) =
      missing memberId stockId requests c + lostShares memberId stockId c.store op := by
  obtain ⟨hstore, hlog⟩ := Config.step_applies (backend remote) hi ho
  have hstep := shares_step remote c.store memberId stockId hmay
  rw [missing, missing, hstore, hlog, tally_cons netOn_nil]
  simp only [backend]
  omega

/-- No step lowers what is missing, and the steps that keep shares keep it. -/
theorem missing_step (hc : Sound memberId stockId requests c)
    (ch : Choice ℕ Environment Exception) :
    Sound memberId stockId requests (c.step (backend remote) ch) ∧
      missing memberId stockId requests c ≤
        missing memberId stockId requests (c.step (backend remote) ch) ∧
      (missing memberId stockId requests (c.step (backend remote) ch) =
        missing memberId stockId requests c ↔ (keepsShares memberId stockId).Meets c ch) := by
  obtain ⟨hconforms, hshares⟩ := hc
  have hconforms' := conforms_step remote hconforms ch
  have hidle (hstore : (c.step (backend remote) ch).store.shares memberId stockId =
      c.store.shares memberId stockId) (hlog : (c.step (backend remote) ch).log = c.log)
      (hmeets : (keepsShares memberId stockId).Meets c ch) :
      Sound memberId stockId requests (c.step (backend remote) ch) ∧
        missing memberId stockId requests c ≤
          missing memberId stockId requests (c.step (backend remote) ch) ∧
        (missing memberId stockId requests (c.step (backend remote) ch) =
          missing memberId stockId requests c ↔ (keepsShares memberId stockId).Meets c ch) := by
    have hsame : missing memberId stockId requests (c.step (backend remote) ch) =
        missing memberId stockId requests c := by rw [missing, missing, hstore, hlog]
    exact ⟨⟨hconforms', hstore ▸ hshares⟩, hsame.ge, iff_of_true hsame hmeets⟩
  cases ch with
  | crash i => exact hidle rfl rfl trivial
  | env y => exact hidle (shares_env remote y c.store) rfl trivial
  | step i o =>
    by_cases hcarried : ∃ op next failed, c.calls i = some (.call op next failed) ∧ o.applies
    · obtain ⟨op, next, failed, hi, ho⟩ := hcarried
      have hmay : (requests i).May (own i c.log) op := (hconforms i _ hi).1
      have hnonneg := lostShares_nonneg hmay hshares
      have hgrow := missing_applied remote memberId stockId hmay hi ho
      have hmeets : (keepsShares memberId stockId).Meets c (.step i o) ↔
          (keepsShares memberId stockId).call c.store c.log i op o := by
        simp only [Assumption.Meets, hi]
      have hstore := (Config.step_applies (backend remote) hi ho).1
      refine ⟨⟨hconforms', hstore ▸ shares_exec_nonneg hmay hshares⟩, by omega, ?_⟩
      rw [hgrow, hmeets, ← lostShares_eq_zero_iff hmay ho]
      omega
    · have hno (op) (next) (failed) (hi : c.calls i = some (.call op next failed)) :
          ¬o.applies := fun ho => hcarried ⟨op, next, failed, hi, ho⟩
      obtain ⟨hstore, hlog⟩ := Config.step_of_not_applies (backend remote) hno
      apply hidle (by rw [hstore]) hlog
      simp only [Assumption.Meets]
      split
      · rename_i op next failed hi
        exact fun happlies => absurd happlies (hno op next failed hi)
      · trivial

theorem sound_start {store : Store} (hstart : 0 ≤ store.shares memberId stockId) :
    Sound memberId stockId requests (State.start store requests) :=
  ⟨Config.conforms_start fun i => follows_serve i (requests i), hstart⟩

theorem missing_start (store : Store) : missing memberId stockId requests
    (State.start store requests) = -store.shares memberId stockId := zero_sub _

/-- Over a schedule, what is missing does not fall, and stays the same exactly
where every step keeps shares. -/
theorem missing_run (remote : Wallet.Faults) (requests : ℕ → Request) {store : Store}
    (hstart : 0 ≤ store.shares memberId stockId) (sched : Schedule) :
    let c := (State.start store requests).run (backend remote) sched
    Sound memberId stockId requests c ∧
      missing memberId stockId requests (State.start store requests) ≤
        missing memberId stockId requests c ∧
      (missing memberId stockId requests c =
        missing memberId stockId requests (State.start store requests) ↔
          (keepsShares memberId stockId).Along (backend remote) (State.start store requests)
            sched) :=
  Assumption.run_eq_iff_along (backend remote) (keepsShares memberId stockId)
    (I := Sound memberId stockId requests) (fun _ ch hc => missing_step hc ch)
    (sound_start hstart) sched

end Run

/-- Shares are never oversold and never created, whatever fails, crashes or
expires: a position has at least 0 of them, and at most what it began with, what
buys have added and what sells have taken and not given back. -/
theorem shares_bounded (remote : Wallet.Faults) (store : Store) (requests : ℕ → Request)
    (memberId stockId : String) (hstart : 0 ≤ store.shares memberId stockId) (sched : Schedule) :
    let c := (State.start store requests).run (backend remote) sched
    0 ≤ c.store.shares memberId stockId ∧ c.store.shares memberId stockId ≤
      store.shares memberId stockId + tally (netOn memberId stockId requests) c.log := by
  intro c
  obtain ⟨hsound, hle, -⟩ := missing_run remote requests hstart sched
  rw [missing_start] at hle
  have hmissing : -store.shares memberId stockId ≤
      tally (netOn memberId stockId requests) c.log - c.store.shares memberId stockId := hle
  exact ⟨hsound.2, by omega⟩

/-- A member buys five shares, sells them and buys five again. -/
def overlapping : ℕ → Request
  | 0 => .buy "m" fiveShares
  | 1 => .sell "m" fiveShares
  | 2 => .buy "m" fiveShares
  | _ => .buy "other" fiveShares

def steps (i n : ℕ) : Schedule := List.replicate n (.step i .done)

def evict : Schedule := [.env (.evictStock (RedisKeys.stockCache "s"))]

def inTurn : Schedule := steps 0 13 ++ evict ++ steps 1 13 ++ evict ++ steps 2 13

/-- The lock of the sell expires while it waits for the wallet, and the last buy
runs before it goes on. -/
def overlap : Schedule :=
  steps 0 13 ++ evict ++ steps 1 7 ++
    [.env (.expire (RedisKeys.memberLock "m"))] ++ evict ++ steps 2 13 ++ steps 1 6

theorem shares_bounded_overlap :
    let c := (State.start unopened overlapping).run (backend Wallet.answered) overlap
    0 ≤ c.store.shares "m" "s" ∧ c.store.shares "m" "s" ≤
      unopened.shares "m" "s" + tally (netOn "m" "s" overlapping) c.log :=
  shares_bounded Wallet.answered unopened overlapping "m" "s" (by decide +kernel) overlap

end StockMarket.Trading
