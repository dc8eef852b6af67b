import StockMarket.Members.Registration
import StockMarket.Trading.Atomicity
import StockMarket.Trading.Protocol

/-! # Who can trade

An order needs a trader whose KYC is approved, and the trading service knows its traders
by events only. It is taken together with the services these events come from.
-/

namespace StockMarket.Trading
open Interleaving Prog OrderService
open Members (MemberEvent ProfileRequest ProfileSchedule ProfileState profileBackend Consumes)
open Auth (AccountState AccountSchedule)

def Trader.MayTrade (trader : Trader) : Prop :=
  trader.status ≠ .suspended ∧ trader.kycStatus = .approved

section Protocol
variable {α : Type} {r : Request} {h : History} {memberId : String}

/-- The call has found its member's trader, who may place orders. -/
def Request.Checked (r : Request) (h : History) : Prop :=
  ∃ trader : Trader, ⟨.findTrader r.memberId, some trader⟩ ∈ h ∧ trader.MayTrade

/-- Before the trader is checked, it is only looked for. -/
def mayOrder (r : Request) (h : History) (op : TradingOp) : Prop :=
  (∃ memberId, op = .findTrader memberId) ∨ r.Checked h

def checking (requests : ℕ → Request) :
    Protocol ℕ TradingOp TradingOp.Reply Exception (Option Order) where
  may i := mayOrder (requests i)
  ends _ _ _ := True
  post i := Returns fun h _ => (requests i).Checked h

theorem Request.Checked.later {h' : History} (hr : r.Checked h) (hsuffix : h <:+ h') :
    r.Checked h' := by
  obtain ⟨trader, hfound, hmay⟩ := hr
  exact ⟨trader, hsuffix.subset hfound, hmay⟩

theorem obeys_assertCanTrade (r : Request) :
    (TraderService.assertCanTrade r.memberId).Obeys (mayOrder r) (fun _ _ => True)
      (Returns fun h _ => r.Checked h) [] := by
  refine Obeys.send (.inl ⟨_, rfl⟩) ?_
  intro found
  rcases found with _ | trader
  · trivial
  dsimp only
  split
  · trivial
  split
  · trivial
  · rename_i hactive hkyc
    exact ⟨trader, List.mem_cons_self, hactive, not_not.mp hkyc⟩

theorem obeys_checked {p : Call α} (hr : r.Checked h) :
    p.Obeys (mayOrder r) (fun _ _ => True) (Returns fun h _ => r.Checked h) h := by
  apply (Obeys.of_sends_from (sends_true p) ?_).mono
  · intro h' res hsuffix
    cases res with
    | error e => trivial
    | ok a => exact hr.later hsuffix
  · intro h' op hsuffix _
    exact .inr (hr.later hsuffix)

theorem Request.obeys_checking (uuid : ℕ) (r : Request) :
    (r.serve uuid).Obeys (mayOrder r) (fun _ _ => True) (Returns fun h _ => r.Checked h) [] := by
  cases r with
  | buy memberId dto =>
    exact (obeys_assertCanTrade (.buy memberId dto)).bindReturns fun h trader => obeys_checked
  | sell memberId dto =>
    exact (obeys_assertCanTrade (.sell memberId dto)).bindReturns fun h trader => obeys_checked

end Protocol

section Barred
variable {remote : Wallet.Faults} {requests : ℕ → Request} {store s : Store}
  {log : List LogEntry} {i : ℕ} {op : TradingOp}

/-- Nobody may trade, nobody was found who may, and nothing has come of any order. -/
structure Barred (store s : Store) (log : List LogEntry) : Prop where
  traders : ∀ memberId trader, s.traders memberId = some trader → ¬trader.MayTrade
  found : ∀ k memberId (trader : Trader), ⟨k, .findTrader memberId, some trader⟩ ∈ log →
    ¬trader.MayTrade
  accounts : s.accounts = store.accounts
  outbox : s.outbox = store.outbox

theorem Barred.not_checked (h : Barred store s log) {r : Request} : ¬r.Checked (own i log) := by
  rintro ⟨trader, hfound, hmay⟩
  exact h.found i r.memberId trader (mem_own.mp hfound) hmay

theorem Barred.exec (h : Barred store s log) (hop : mayOrder (requests i) (own i log) op) :
    Barred store (exec remote op s).2 (⟨i, op, (exec remote op s).1⟩ :: log) := by
  obtain ⟨memberId, rfl⟩ : ∃ memberId, op = .findTrader memberId :=
    hop.resolve_right h.not_checked
  refine ⟨h.traders, ?_, h.accounts, h.outbox⟩
  intro k other trader hentry
  rcases List.mem_cons.mp hentry with hnew | hold
  · rw [Entry.mk.injEq] at hnew
    obtain ⟨⟨⟩, hreply⟩ := reaction_eq hnew.2.symm
    exact h.traders memberId trader hreply
  · exact h.found k other trader hold

/-- Traders are written by whoever they are, as long as none of them may trade. -/
def barring : Assumption ℕ TradingOp TradingOp.Reply Store Environment Exception where
  call _ _ _ _ _ := True
  env
    | .setTrader _ trader => ∀ t ∈ trader, ¬t.MayTrade
    | _ => True

theorem Barred.env (h : Barred store s log) {y : Environment} (hy : barring.env y) :
    Barred store ((backend remote).env y s) log := by
  cases y with
  | setTrader memberId trader =>
    refine ⟨?_, h.found, h.accounts, h.outbox⟩
    intro other t ht
    by_cases hother : other = memberId
    · subst hother
      exact hy t (by simpa [backend] using ht)
    · exact h.traders other t (by simpa [backend, Function.update_of_ne hother] using ht)
  | _ => exact ⟨h.traders, h.found, h.accounts, h.outbox⟩

theorem barred_run (remote : Wallet.Faults) (requests : ℕ → Request)
    (hstore : ∀ memberId trader, store.traders memberId = some trader → ¬trader.MayTrade)
    (sched : Schedule)
    (hsched : barring.Along (backend remote) (State.start store requests) sched) :
    let c := (State.start store requests).run (backend remote) sched
    c.Conforms (checking requests) ∧ Barred store c.store c.log :=
  Config.run_invariant (A := barring) (P := checking requests) (fun _ _ _ _ _ _ => trivial)
    (fun _ _ _ _ _ hI hmay _ => hI.exec hmay) (fun _ _ _ hI hy => hI.env hy)
    (Config.conforms_start fun i => (requests i).obeys_checking i)
    ⟨hstore, fun _ _ _ hentry => (by cases hentry), rfl, rfl⟩ sched hsched

end Barred

section System
variable {setting : Auth.Setting} {accounts : Auth.Store} {calls : ℕ → Auth.Request}
  {members : Members.Store} {requests : ℕ → ProfileRequest}

/-- A trader changes as the consumer makes it of what has been delivered. -/
def delivering (emitted : MemberEvent → Prop) (fresh : ℕ → String) :
    Assumption ℕ TradingOp TradingOp.Reply Store Environment Exception where
  call _ _ _ _ _ := True
  env
    | .setTrader memberId trader => ∃ n delivered, (∀ event ∈ delivered, emitted event) ∧
        trader = (MemberEventConsumer.handleAll fresh n delivered ∅).lookup memberId
    | _ => True

/-- The auth service registers, the user service consumes, suspends and decides about KYC,
and the trading service is delivered what they emit, in any order and as often as it comes.
Whatever the CMS has approved, no order is ever placed, and no money and no share moves. -/
theorem no_order_placed (haccounts : Auth.Distinct accounts.users) (sched : AccountSchedule)
    (hmembers : members.Fresh)
    (hconsumes : Consumes ((AccountState.start setting accounts calls).run
      (Auth.backend setting) sched).store.memberOutbox requests)
    (sched' : ProfileSchedule) (fresh : ℕ → String)
    (hfresh : ∀ n (userId : ℕ), fresh n ≠ toString userId) (remote : Wallet.Faults)
    (store : Store) (hstore : ∀ memberId, store.traders memberId = none) (orders : ℕ → Request)
    (sched'' : Schedule)
    (hsched : (delivering (fun event =>
        (∃ registration ∈ ((AccountState.start setting accounts calls).run (Auth.backend setting)
          sched).store.memberOutbox, event = .registered registration) ∨
        event ∈ ((ProfileState.start members requests).run profileBackend sched').store.outbox)
      fresh).Along (backend remote) (State.start store orders) sched'') :
    let c := (State.start store orders).run (backend remote) sched''
    c.store.accounts = store.accounts ∧ c.store.outbox = store.outbox ∧
      ∀ i answer, c.result i ≠ some (.ok answer) := by
  intro c
  have henrolled := @Auth.enrolled_run setting accounts calls haccounts sched
  obtain ⟨-, hmirrors⟩ := Members.mirrors_run hmembers henrolled.consistent hconsumes sched'
  have hnew (n : ℕ) (event : Members.MemberRegisteredEvent)
      (hevent : event ∈ ((AccountState.start setting accounts calls).run (Auth.backend setting)
        sched).store.memberOutbox) : fresh n ≠ event.userId := by
    obtain ⟨userId, user, -, -, rfl⟩ := henrolled.emitted event hevent
    exact hfresh n userId
  have hbarring : barring.Along (backend remote) (State.start store orders) sched'' := by
    refine hsched.mono _ (fun _ _ _ _ _ _ => trivial) ?_
    intro y hy
    cases y with
    | setTrader memberId trader =>
      obtain ⟨n, delivered, hdelivered, rfl⟩ := hy
      rintro trader htrader ⟨-, happroved⟩
      obtain ⟨event, -, -, rfl⟩ := (Members.lookup_delivered henrolled.consistent hnew
        (fun event hevent => (hdelivered event hevent).imp_right (hmirrors.missed event)) n memberId
        trader).mp htrader
      cases happroved
    | _ => trivial
  obtain ⟨hconforms, hbarred⟩ := barred_run remote orders
    (fun memberId trader htrader => by rw [hstore] at htrader; cases htrader) sched'' hbarring
  exact ⟨hbarred.accounts, hbarred.outbox, fun i answer hresult =>
    hbarred.not_checked (hconforms.returned hresult)⟩

section Example

def isApproved : ℕ → ProfileRequest
  | 0 => .registered Members.joined
  | _ => .decide (.updateKyc "0" ⟨.approved, none, by simp⟩)

def approvedSchedule : ProfileSchedule := .step 0 .done :: List.replicate 4 (.step 1 .done)

/-- The trader is delivered both, and places an order. -/
def deliveredThenOrders : Schedule :=
  .env (.setTrader "0" (some Members.joined.trader)) :: List.replicate 4 (.step 0 .done)

theorem no_order_placed_approved :
    let c := (State.start { sampleStore with traders := fun _ => none } fun _ =>
      .buy "0" fiveShares).run (backend Wallet.answered) deliveredThenOrders
    c.store.orders = [] ∧ c.store.outbox = [] ∧ ∀ i answer, c.result i ≠ some (.ok answer) := by
  intro c
  have hemitted := Members.consumes_joined 0 Members.joined rfl
  have hconsumes : Consumes ((AccountState.start Auth.sample (Auth.opening [] 1709164800000)
      Members.joins).run (Auth.backend Auth.sample) Members.joinSchedule).store.memberOutbox
      isApproved := by
    rintro (_ | i) event h
    · exact ProfileRequest.registered.inj h ▸ hemitted
    · cases h
  have happroved : .kycUpdated ⟨some "0", none⟩ .approved none ∈
      ((ProfileState.start Members.emptyStore isApproved).run profileBackend
        approvedSchedule).store.outbox := by decide +kernel
  have hplaced := no_order_placed Members.distinct_nil
    Members.joinSchedule Members.emptyStore_fresh hconsumes approvedSchedule
    (fun n => "fresh:" ++ toString n) Members.fresh_ne_number Wallet.answered
    { sampleStore with traders := fun _ => none } (fun _ => rfl) (fun _ => .buy "0" fiveShares)
    deliveredThenOrders
    (Assumption.along_of_env _ _ (fun _ _ _ _ _ => trivial) (fun y hy => ?_) _)
  · obtain ⟨haccounts, houtbox, hanswers⟩ := hplaced
    exact ⟨(accounts_eq_iff.mp haccounts).2.1, houtbox, hanswers⟩
  · have hy : y = .setTrader "0" (some Members.joined.trader) := by
      simpa [deliveredThenOrders] using hy
    subst hy
    refine ⟨0, [.registered Members.joined, .kycUpdated ⟨some "0", none⟩ .approved none], ?_, ?_⟩
    · simp only [List.forall_mem_cons, List.not_mem_nil, false_imp_iff, implies_true, and_true]
      exact ⟨.inl ⟨Members.joined, hemitted, rfl⟩, .inr happroved⟩
    · decide +kernel

end Example
end System
end StockMarket.Trading
