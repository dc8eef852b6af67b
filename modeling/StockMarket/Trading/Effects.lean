import StockMarket.Trading.Service
import StockMarket.Wallet.Sequential

/-! # What the trading operations do to shares, orders and money

Reads, caches, locks and events leave the accounts alone. A request to the
wallet service under a fresh order id either makes the whole movement or
leaves the wallet as it was.
-/

namespace StockMarket.Trading
open Interleaving Prog

/-- The part of the store that holds shares, orders and money. -/
def Store.accounts (s : Store) :
    (AList fun _ : String × String => Position) × List Order × Wallet.Store :=
  (s.positions, s.orders, s.wallet)

theorem accounts_eq_iff {s s' : Store} : s'.accounts = s.accounts ↔
    s'.positions = s.positions ∧ s'.orders = s.orders ∧ s'.wallet = s.wallet := by
  simp [Store.accounts]

/-- The operations that leave the accounts alone. -/
def TradingOp.quiet : TradingOp → Bool
  | .createOrder _ => false
  | .updateOrder _ _ => false
  | .incPosition _ _ _ _ => false
  | .createPosition _ _ _ => false
  | .updatePosition _ _ _ _ _ => false
  | .deletePosition _ _ => false
  | .postDeduct _ _ _ => false
  | .postCredit _ _ _ => false
  | _ => true

/-- The operations that leave the accounts and the locks alone. -/
def TradingOp.passive : TradingOp → Bool
  | .setLock _ _ => false
  | .evalRelease _ _ => false
  | op => op.quiet

theorem TradingOp.quiet_of_passive (op : TradingOp) (hop : op.passive) : op.quiet := by
  cases op <;> first | exact hop | rfl

theorem locks_exec_of_passive (remote : Wallet.Faults) (op : TradingOp) (s : Store)
    (hop : op.passive) : (exec remote op s).2.locks = s.locks := by
  cases op <;> first | rfl | cases hop

theorem accounts_exec (remote : Wallet.Faults) (op : TradingOp) (s : Store) (hop : op.quiet) :
    (exec remote op s).2.accounts = s.accounts := by
  cases op with
  | setLock key token =>
    simp only [exec]
    split <;> rfl
  | evalRelease key token =>
    simp only [exec]
    split <;> rfl
  | _ => first | rfl | cases hop

section Accounts
variable {s : Store} {memberId stockId : String}

theorem shares_setPosition (s : Store) (memberId stockId : String) (position : Position) :
    (s.setPosition memberId stockId position).shares memberId stockId = position.shares := by
  simp [Store.shares, Store.position, Store.setPosition]

theorem position_setPosition (s : Store) (memberId stockId : String) (position : Position) :
    (s.setPosition memberId stockId position).position memberId stockId = some position := by
  simp [Store.position, Store.setPosition]

theorem position_deletePosition (s : Store) (memberId stockId : String) :
    (s.deletePosition memberId stockId).position memberId stockId = none := by
  simp [Store.position, Store.deletePosition]

theorem shares_eq {position : Position} (h : s.position memberId stockId = some position) :
    s.shares memberId stockId = position.shares := by
  simp [Store.shares, h]

end Accounts

section Remote
variable (transfer : Wallet.InternalMoveDto → Wallet.Transfer) (userId : String) (amount : Number)
  (orderId : String)

/-- The wallet service carries the request out: it passes validation, and the
money moves. -/
def Carries (remote : Wallet.Faults) (w : Wallet.Store) : Prop :=
  ∃ (a : ℚ) (h : 0 < a) (wallet : Wallet.WalletDoc), amount = some a ∧
    Wallet.Moves remote 0 (transfer ⟨userId, a, orderId, h⟩) wallet w

/-- The wallet service carries the request out and answers it. -/
def Confirms (remote : Wallet.Faults) (w : Wallet.Store) : Prop :=
  ∃ (a : ℚ) (h : 0 < a) (wallet : Wallet.WalletDoc), amount = some a ∧
    Wallet.Answers remote 0 (transfer ⟨userId, a, orderId, h⟩) wallet w

/-- The wallet after the movement a request asks for. -/
def MadeFor (w w' : Wallet.Store) : Prop :=
  ∃ (a : ℚ) (h : 0 < a), amount = some a ∧
    Wallet.Made w w' (transfer ⟨userId, a, orderId, h⟩).movement

/-- How a wallet request can end: answered with the money moved, failed with no
balance changed, or failed although the money has moved. -/
inductive Posted (carried confirmed : Prop) (w : Wallet.Store) :
    Except Exception ℚ × Wallet.Store → Prop
  | answered (b : ℚ) (w' : Wallet.Store) (h : confirmed)
      (made : MadeFor transfer userId amount orderId w w') :
      Posted carried confirmed w (.ok b, w')
  | kept (e : Exception) (w' : Wallet.Store) (h : ¬carried)
      (same : ∀ owner, w'.balance owner = w.balance owner) :
      Posted carried confirmed w (.error e, w')
  | lost (e : Exception) (w' : Wallet.Store) (h : carried) (hno : ¬confirmed)
      (made : MadeFor transfer userId amount orderId w w') :
      Posted carried confirmed w (.error e, w')

variable {transfer userId amount orderId} {remote : Wallet.Faults} {w : Wallet.Store}

theorem Confirms.carries (h : Confirms transfer userId amount orderId remote w) :
    Carries transfer userId amount orderId remote w := by
  obtain ⟨a, hpos, wallet, ha, hanswers⟩ := h
  exact ⟨a, hpos, wallet, ha, hanswers.toMoves⟩

/-- What a failed wallet request has done to the balances. -/
theorem Posted.error {carried confirmed : Prop} {e : Exception} {w' : Wallet.Store}
    (h : Posted transfer userId amount orderId carried confirmed w (.error e, w'))
    (hc : confirmed → carried) : ¬confirmed ∧
      ((¬carried ∧ ∀ owner, w'.balance owner = w.balance owner) ∨
        carried ∧ MadeFor transfer userId amount orderId w w') := by
  cases h with
  | kept e w' hno same => exact ⟨fun h => hno (hc h), .inl ⟨hno, same⟩⟩
  | lost e w' h hno made => exact ⟨hno, .inr ⟨h, made⟩⟩

theorem posted_postWallet (amount : Number) {serve : Wallet.InternalMoveDto → Wallet.Call ℚ}
    (hserve : ∀ a h, Wallet.Served remote 0 (transfer ⟨userId, a, orderId, h⟩) w
      ((serve ⟨userId, a, orderId, h⟩).run Wallet.exec remote w)) :
    Posted transfer userId amount orderId (Carries transfer userId amount orderId remote w)
      (Confirms transfer userId amount orderId remote w) w
      (postWallet remote serve userId amount orderId w) := by
  rcases amount with _ | a
  · exact .kept _ w (by simp [Carries]) fun _ => rfl
  · by_cases hpos : 0 < a
    · have honly {P : (a : ℚ) → 0 < a → Wallet.WalletDoc → Prop} :
          (∃ a' h wallet, some a = some a' ∧ P a' h wallet) ↔ ∃ wallet, P a hpos wallet :=
        ⟨by rintro ⟨_, _, wallet, ⟨⟩, h⟩; exact ⟨wallet, h⟩,
          by rintro ⟨wallet, h⟩; exact ⟨a, hpos, wallet, rfl, h⟩⟩
      have hcase := hserve a hpos
      simp only [postWallet, dif_pos hpos]
      generalize (serve ⟨userId, a, orderId, hpos⟩).run Wallet.exec remote w = out at hcase
      cases hcase with
      | answered w' h made => exact .answered _ w' (honly.mpr h) ⟨a, hpos, rfl, made⟩
      | kept e w' h same => exact .kept _ w' (fun hc => h (honly.mp hc)) same
      | lost e w' h hno made =>
        exact .lost _ w' (honly.mpr h) (fun hc => hno (honly.mp hc)) ⟨a, hpos, rfl, made⟩
    · rw [postWallet, dif_neg hpos]
      refine .kept _ w ?_ fun _ => rfl
      rintro ⟨a', h', _, ⟨⟩, -⟩
      exact hpos h'

end Remote

section Client
variable {s : Store} {userId orderId : String} {amount : Number} {remote : Wallet.Faults}

/-- A wallet call from this side: the response may fail to arrive, and the
request may as well. -/
private theorem posted_client {transfer : Wallet.InternalMoveDto → Wallet.Transfer}
    {serve : Wallet.InternalMoveDto → Wallet.Call ℚ}
    (hserve : ∀ a h, Wallet.Served remote 0 (transfer ⟨userId, a, orderId, h⟩) s.wallet
      ((serve ⟨userId, a, orderId, h⟩).run Wallet.exec remote s.wallet))
    (request : Call (Except Exception ℚ)) (o : Outcome Exception) (wrap : Exception → Exception)
    (faults : Faults)
    (hrequest : request.run (exec remote) faults s =
      let out := postWallet remote serve userId amount orderId s.wallet
      match o with
      | .done => (.ok out.1, { s with wallet := out.2 })
      | .failed e => (.error e, s)
      | .lost e => (.error e, { s with wallet := out.2 })) :
    ∃ r w', (catching (WalletClient.post request) fun err => raise (wrap err)).run (exec remote)
        faults s = (r, { s with wallet := w' }) ∧
      Posted transfer userId amount orderId
        (o.applies ∧ Carries transfer userId amount orderId remote s.wallet)
        (o = .done ∧ Confirms transfer userId amount orderId remote s.wallet) s.wallet (r, w') := by
  rw [catching, WalletClient.post, bind_eq, run_handle, run_handle, hrequest]
  have hposted := posted_postWallet amount hserve
  generalize postWallet remote serve userId amount orderId s.wallet = out at hposted
  cases o with
  | failed e => exact ⟨_, _, rfl, .kept _ s.wallet (by simp [Outcome.applies]) fun _ => rfl⟩
  | done =>
    cases hposted with
    | answered b w' h made => exact ⟨_, w', rfl, .answered b w' ⟨rfl, h⟩ made⟩
    | kept e w' h same => exact ⟨_, w', rfl, .kept _ w' (fun hc => h hc.2) same⟩
    | lost e w' h hno made => exact ⟨_, w', rfl, .lost _ w' ⟨rfl, h⟩ (fun hc => hno hc.2) made⟩
  | lost e =>
    cases hposted with
    | answered b w' h made =>
      exact ⟨_, w', rfl, .lost _ w' ⟨rfl, h.carries⟩ (by simp) made⟩
    | kept e w' h same => exact ⟨_, w', rfl, .kept _ w' (fun hc => h hc.2) same⟩
    | lost e w' h hno made =>
      exact ⟨_, w', rfl, .lost _ w' ⟨rfl, h⟩ (by simp) made⟩

/-- The two calls of `WalletClient`, for an order no movement was made for. -/
theorem posted_deduct (remote : Wallet.Faults) (faults : Faults) (userId : String)
    (amount : Number) (orderId : String)
    (hfresh : ¬s.wallet.HasKey s!"trade:deduct:{orderId}") :
    ∃ r w', (WalletClient.deduct userId amount orderId).run (exec remote) faults s =
        (r, { s with wallet := w' }) ∧
      Posted Wallet.InternalMoveDto.deduction userId amount orderId
        ((faults (.postDeduct userId amount orderId)).applies ∧
          Carries Wallet.InternalMoveDto.deduction userId amount orderId remote s.wallet)
        (faults (.postDeduct userId amount orderId) = .done ∧
          Confirms Wallet.InternalMoveDto.deduction userId amount orderId remote s.wallet)
        s.wallet (r, w') :=
  posted_client (fun a h => Wallet.served_deduct 0 ⟨userId, a, orderId, h⟩ hfresh) _ _ _ faults (by
    rw [run_send]
    cases faults (.postDeduct userId amount orderId) <;> rfl)

theorem posted_credit (remote : Wallet.Faults) (faults : Faults) (userId : String)
    (amount : Number) (orderId : String)
    (hfresh : ¬s.wallet.HasKey s!"trade:credit:{orderId}") :
    ∃ r w', (WalletClient.credit userId amount orderId).run (exec remote) faults s =
        (r, { s with wallet := w' }) ∧
      Posted Wallet.InternalMoveDto.crediting userId amount orderId
        ((faults (.postCredit userId amount orderId)).applies ∧
          Carries Wallet.InternalMoveDto.crediting userId amount orderId remote s.wallet)
        (faults (.postCredit userId amount orderId) = .done ∧
          Confirms Wallet.InternalMoveDto.crediting userId amount orderId remote s.wallet)
        s.wallet (r, w') :=
  posted_client (fun a h => Wallet.served_credit 0 ⟨userId, a, orderId, h⟩ hfresh) _ _ _ faults (by
    rw [run_send]
    cases faults (.postCredit userId amount orderId) <;> rfl)

end Client
end StockMarket.Trading
