import StockMarket.Wallet.Balance

/-! # A movement served alone

A deduct or a credit under a fresh key, with no other call running, whatever
its own store calls come to. The balance changes exactly where the wallet
accepts the movement and every call up to the increment succeeds; the request
is answered normally exactly where the calls after it succeed as well.
-/

namespace StockMarket.Wallet
open Interleaving Prog

/-- A movement with the record it is entered under. -/
structure Transfer where
  movement : Movement
  record : WalletDoc → CreateTransactionInput
  record_userId : ∀ wallet, (record wallet).userId = movement.userId
  record_key : ∀ wallet, (record wallet).idempotencyKey = movement.key
  record_amount : ∀ wallet, (record wallet).amount = |movement.amount|

namespace Transfer
variable (T : Transfer)

/-- The calls a transfer makes on MongoDB, in their order. -/
abbrev count : WalletOp := .countByIdempotencyKey T.movement.key
abbrev read : WalletOp := .findWallet T.movement.userId
abbrev insert (wallet : WalletDoc) : WalletOp := .createTransaction (T.record wallet).doc
abbrev increment : WalletOp :=
  .incBalance T.movement.userId T.movement.gte T.movement.amount T.movement.isDeposit
abbrev complete (wallet : WalletDoc) (transactionId : ℕ) : WalletOp :=
  .updateTransaction transactionId (.completed (wallet.balance + T.movement.amount) none)

abbrev lock : String := walletLock T.movement.userId

/-- The store once the record is entered. -/
def entered (wallet : WalletDoc) (w : Store) : Store :=
  { w with transactions := w.transactions ++ [{ (T.record wallet).doc with createdAt := w.now }] }

end Transfer

def InternalMoveDto.deduction (dto : InternalMoveDto) : Transfer where
  movement := dto.debit
  record wallet :=
    { userId := dto.userId
      type := .buy
      status := .pending
      amount := dto.amount
      balanceBefore := wallet.balance
      currency := wallet.currency
      idempotencyKey := s!"trade:deduct:{dto.orderId}" }
  record_userId _ := rfl
  record_key _ := rfl
  record_amount _ := ((abs_neg dto.amount).trans (abs_of_pos dto.amount_pos)).symm

def InternalMoveDto.crediting (dto : InternalMoveDto) : Transfer where
  movement := dto.credit
  record wallet :=
    { userId := dto.userId
      type := .sell
      status := .pending
      amount := dto.amount
      balanceBefore := wallet.balance
      currency := wallet.currency
      idempotencyKey := s!"trade:credit:{dto.orderId}" }
  record_userId _ := rfl
  record_key _ := rfl
  record_amount _ := (abs_of_pos dto.amount_pos).symm

/-- The wallet covers the transfer, and every store call under the lock succeeds
up to the increment. -/
structure Enters (faults : Faults) (T : Transfer) (wallet : WalletDoc) (w : Store) : Prop where
  found : w.wallets T.movement.userId = some wallet
  covers : wallet.Covers T.movement.gte
  read : faults T.read = .done
  recorded : faults (T.insert wallet) = .done
  moved : (faults T.increment).applies

/-- The calls before succeed as well, and the lock is free. -/
structure Moves (faults : Faults) (uuid : ℕ) (T : Transfer) (wallet : WalletDoc) (w : Store) :
    Prop extends Enters faults T wallet w where
  counted : faults T.count = .done
  locked : faults (.setLock T.lock uuid) = .done
  free : w.locks T.lock = none

/-- Every store call after the increment succeeds as well. -/
structure Answers (faults : Faults) (uuid : ℕ) (T : Transfer) (wallet : WalletDoc) (w : Store) :
    Prop extends Moves faults uuid T wallet w where
  answered : faults T.increment = .done
  completed : faults (T.complete wallet w.transactions.length) = .done
  released : faults (.evalRelease T.lock uuid) = .done

structure Made (w w' : Store) (m : Movement) : Prop where
  record : ∃ t : Transaction, w'.transactions = w.transactions ++ [t] ∧ t.userId = m.userId ∧
    t.idempotencyKey = m.key ∧ t.amount = |m.amount|
  balance : ∀ userId, w'.balance userId =
    w.balance userId + if m.userId = userId then m.amount else 0

/-- How a request can end: answered with the balance moved, thrown with no
balance changed, or thrown although the balance has moved. -/
inductive Served (faults : Faults) (uuid : ℕ) (T : Transfer) (w : Store) :
    Except Exception ℚ × Store → Prop
  | answered (w' : Store) (h : ∃ wallet, Answers faults uuid T wallet w)
      (made : Made w w' T.movement) :
      Served faults uuid T w (.ok (w'.balance T.movement.userId), w')
  | kept (e : Exception) (w' : Store) (h : ¬∃ wallet, Moves faults uuid T wallet w)
      (same : ∀ userId, w'.balance userId = w.balance userId) :
      Served faults uuid T w (.error e, w')
  | lost (e : Exception) (w' : Store) (h : ∃ wallet, Moves faults uuid T wallet w)
      (hno : ¬∃ wallet, Answers faults uuid T wallet w) (made : Made w w' T.movement) :
      Served faults uuid T w (.error e, w')

section Sequential
variable {faults : Faults} {uuid : ℕ} {T : Transfer} {w : Store}

theorem Made.of_same {w w' w'' : Store} {m : Movement} (h : Made w w' m)
    (hwallets : w''.wallets = w'.wallets) (htransactions : w''.transactions = w'.transactions) :
    Made w w'' m :=
  ⟨by rw [htransactions]; exact h.record,
    fun userId => by rw [Store.balance, hwallets]; exact h.balance userId⟩

theorem exec_record (wallet : WalletDoc) (hfresh : ¬w.HasKey T.movement.key) :
    exec (T.insert wallet) w =
      (some w.transactions.length, T.entered wallet w) := by
  have hno : ¬w.HasKey (T.record wallet).doc.idempotencyKey := by
    rw [show (T.record wallet).doc.idempotencyKey = _ from T.record_key wallet]
    exact hfresh
  simp only [exec, if_neg hno]
  rfl

theorem made_entered {wallet : WalletDoc} (hwallet : w.wallets T.movement.userId = some wallet)
    (isDeposit : Bool) (now : Time) :
    Made w ((T.entered wallet w).setWallet T.movement.userId
      (wallet.inc T.movement.amount isDeposit now)) T.movement := by
  refine ⟨⟨_, rfl, T.record_userId wallet, T.record_key wallet, T.record_amount wallet⟩, ?_⟩
  intro userId
  rw [balance_setWallet]
  split
  · rename_i hu
    subst hu
    simp [WalletDoc.inc, Store.balance, hwallet]
  · exact (add_zero _).symm

/-- Updating the record afterwards changes neither what was entered nor a balance. -/
theorem Made.updated {w' : Store} {m : Movement} (h : Made w w' m) (set : TransactionUpdate) :
    Made w (exec (.updateTransaction w.transactions.length set) w').2 m := by
  obtain ⟨⟨t, htx, hu, hk, ha⟩, hbalance⟩ := h
  have hsame := set.same_apply w'.now t
  refine ⟨⟨set.apply w'.now t, ?_, hsame.userId.trans hu, hsame.idempotencyKey.trans hk,
    hsame.amount.trans ha⟩, hbalance⟩
  simp only [exec, htx]
  exact modify_length_append _ _ _

theorem run_recordThenMove_moves {wallet : WalletDoc} {G : ℕ → Call (ℕ × ℚ)}
    (hfresh : ¬w.HasKey T.movement.key) (hwallet : w.wallets T.movement.userId = some wallet)
    (hcovers : wallet.Covers T.movement.gte)
    (hrecorded : faults (T.insert wallet) = .done)
    (hmoved : (faults T.increment).applies) :
    ∃ r w', (recordThenMove (T.record wallet) T.movement.gte T.movement.amount T.movement.isDeposit
        G).run exec faults w = (r, w') ∧ Made w w' T.movement ∧
      if faults T.increment = .done ∧ faults (T.complete wallet w.transactions.length) = .done
      then r = .ok (w.transactions.length, wallet.balance + T.movement.amount)
      else ∃ e, r = .error e := by
  have hinc : exec T.increment (T.entered wallet w) =
        (some (wallet.inc T.movement.amount T.movement.isDeposit w.now),
          (T.entered wallet w).setWallet T.movement.userId
            (wallet.inc T.movement.amount T.movement.isDeposit w.now)) := by
    simp only [exec, show (T.entered wallet w).wallets _ = _ from hwallet, if_pos hcovers]
    rfl
  have hmade := made_entered (T := T) hwallet T.movement.isDeposit w.now
  rw [recordThenMove, TransactionService.create, bind_bind,
    run_send_bind_done exec faults _ w hrecorded, exec_record wallet hfresh, T.record_userId]
  simp only [pure_eq, ret_bind]
  by_cases hdone : faults T.increment = .done
  · rw [run_send_bind_done exec faults _ _ hdone, hinc]
    simp only [TransactionService.markCompleted]
    by_cases hupd : faults (T.complete wallet w.transactions.length) = .done
    · refine ⟨_, _, run_send_bind_done exec faults _ _ hupd, hmade.updated _, ?_⟩
      rw [if_pos ⟨hdone, hupd⟩]
      rfl
    · obtain ⟨e, y, hrun, hy⟩ := run_send_bind_thrown exec faults
        (fun _ => pure (w.transactions.length, wallet.balance + T.movement.amount))
        ((T.entered wallet w).setWallet T.movement.userId
          (wallet.inc T.movement.amount T.movement.isDeposit w.now)) hupd
      refine ⟨_, y, hrun, ?_, by rw [if_neg fun h => hupd h.2]; exact ⟨e, rfl⟩⟩
      rw [hy]
      split
      · exact hmade.updated _
      · exact hmade
  · obtain ⟨e, y, hrun, hy⟩ := run_send_bind_thrown exec faults _ (T.entered wallet w) hdone
    refine ⟨_, y, hrun, ?_, by rw [if_neg fun h => hdone h.1]; exact ⟨e, rfl⟩⟩
    rw [hy, if_pos hmoved, hinc]
    exact hmade

/-- The increment is not reached, or not carried out. -/
theorem run_recordThenMove_kept {wallet : WalletDoc} {G : ℕ → Call (ℕ × ℚ)}
    (hfresh : ¬w.HasKey T.movement.key)
    (hno : ¬(faults (T.insert wallet) = .done ∧
      (faults T.increment).applies)) :
    ∃ e w', (recordThenMove (T.record wallet) T.movement.gte T.movement.amount T.movement.isDeposit
      G).run exec faults w = (.error e, w') ∧ w'.wallets = w.wallets := by
  rw [recordThenMove, TransactionService.create, bind_bind]
  by_cases hrecorded : faults (T.insert wallet) = .done
  · have hnot : ¬(faults T.increment).applies := fun h => hno ⟨hrecorded, h⟩
    rw [run_send_bind_done exec faults _ w hrecorded, exec_record wallet hfresh, T.record_userId]
    simp only [pure_eq, ret_bind]
    obtain ⟨e, y, hrun, hy⟩ := run_send_bind_thrown exec faults _ (T.entered wallet w)
      (fun h => hnot (by rw [h]; rfl))
    refine ⟨e, y, hrun, ?_⟩
    rw [hy, if_neg hnot]
    rfl
  · obtain ⟨e, y, hrun, hy⟩ := run_send_bind_thrown exec faults _ w hrecorded
    refine ⟨e, y, hrun, ?_⟩
    rw [hy, exec_record wallet hfresh]
    split <;> rfl

theorem run_withLock_taken {α : Type} {userId : String} (fn : Call α)
    (hlocked : faults (.setLock (walletLock userId) uuid) = .done)
    (hfree : w.locks (walletLock userId) = none) :
    ∃ r w', (LockService.withLock uuid userId fn).run exec faults w = (r, w') ∧
      let out := fn.run exec faults
        { w with locks := Function.update w.locks (walletLock userId) (some uuid) }
      w'.wallets = out.2.wallets ∧ w'.transactions = out.2.transactions ∧
      if faults (.evalRelease (walletLock userId) uuid) = .done then r = out.1
      else ∃ e, r = .error e := by
  have hset : exec (.setLock (walletLock userId) uuid) w =
      (true, { w with locks := Function.update w.locks (walletLock userId) (some uuid) }) := by
    simp [exec, hfree]
  have hquiet (x : Store) : (exec (.evalRelease (walletLock userId) uuid) x).2.wallets = x.wallets ∧
      (exec (.evalRelease (walletLock userId) uuid) x).2.transactions = x.transactions := by
    simp only [exec]
    split <;> exact ⟨rfl, rfl⟩
  rw [LockService.withLock, LockService.acquire, bind_bind,
    run_send_bind_done exec faults _ w hlocked, hset]
  simp only [if_true, pure_eq, ret_bind, finallyDo, run_handle]
  generalize fn.run exec faults
    { w with locks := Function.update w.locks (walletLock userId) (some uuid) } = out
  obtain ⟨res, x⟩ := out
  rw [← run_handle, ← bind_eq, LockService.release, bind_bind]
  by_cases hrelease : faults (.evalRelease (walletLock userId) uuid) = .done
  · refine ⟨res, _, ?_, (hquiet x).1, (hquiet x).2, if_pos hrelease ▸ rfl⟩
    rw [run_send_bind_done exec faults _ _ hrelease]
    cases res <;> rfl
  · obtain ⟨e, y, hrun, hy⟩ := run_send_bind_thrown exec faults _ x hrelease
    refine ⟨_, y, hrun, ?_, ?_, by rw [if_neg hrelease]; exact ⟨e, rfl⟩⟩ <;> rw [hy] <;> split
    · exact (hquiet x).1
    · rfl
    · exact (hquiet x).2
    · rfl

theorem run_withLock_refused {α : Type} {userId : String} (fn : Call α)
    (hno : ¬(faults (.setLock (walletLock userId) uuid) = .done ∧
      w.locks (walletLock userId) = none)) :
    ∃ e w', (LockService.withLock uuid userId fn).run exec faults w = (.error e, w') ∧
      w'.wallets = w.wallets := by
  rw [LockService.withLock, LockService.acquire, bind_bind]
  by_cases hlocked : faults (.setLock (walletLock userId) uuid) = .done
  · obtain ⟨owner, howner⟩ := Option.ne_none_iff_exists'.mp fun h => hno ⟨hlocked, h⟩
    have hset : exec (.setLock (walletLock userId) uuid) w = (false, w) := by simp [exec, howner]
    rw [run_send_bind_done exec faults _ w hlocked, hset]
    exact ⟨_, w, rfl, rfl⟩
  · obtain ⟨e, y, hrun, hy⟩ := run_send_bind_thrown exec faults _ w hlocked
    refine ⟨e, y, hrun, ?_⟩
    rw [hy]
    split
    · simp only [exec]
      split <;> rfl
    · rfl

/-- What deduct and credit do once they have the wallet: record and move, unless
it does not cover the movement. -/
structure Continues (T : Transfer) (k : Option WalletDoc → Call ℚ) : Prop where
  missing : ∃ e, k none = raise e
  refused : ∀ wallet, ¬wallet.Covers T.movement.gte → ∃ e, k (some wallet) = raise e
  covered : ∀ wallet, wallet.Covers T.movement.gte → ∃ giveUp, k (some wallet) =
    (recordThenMove (T.record wallet) T.movement.gte T.movement.amount T.movement.isDeposit
      giveUp >>= fun out => pure out.2)

theorem run_inside (faults : Faults) {k : Option WalletDoc → Call ℚ}
    (hfresh : ¬w.HasKey T.movement.key) (hk : Continues T k) :
    ∃ r w', (query T.read >>= k).run exec faults w = (r, w') ∧
      ((∃ wallet, Enters faults T wallet w ∧ Made w w' T.movement ∧
        if faults T.increment = .done ∧ faults (T.complete wallet w.transactions.length) = .done
        then r = .ok (wallet.balance + T.movement.amount) else ∃ e, r = .error e) ∨
      (¬∃ wallet, Enters faults T wallet w) ∧ w'.wallets = w.wallets ∧ ∃ e, r = .error e) := by
  by_cases hread : faults T.read = .done
  swap
  · obtain ⟨e, hrun⟩ := run_read_bind_thrown exec faults k (x := w) rfl hread
    exact ⟨_, w, hrun, .inr ⟨not_exists.mpr fun _ h => hread h.read, rfl, e, rfl⟩⟩
  rw [run_send_bind_done exec faults k w hread, show exec T.read w = (w.wallets _, w) from rfl]
  rcases hwallet : w.wallets T.movement.userId with _ | wallet
  · obtain ⟨e, he⟩ := hk.missing
    refine ⟨_, w, by rw [he]; rfl, .inr ⟨not_exists.mpr ?_, rfl, e, rfl⟩⟩
    intro _ h
    cases hwallet.symm.trans h.found
  have honly {wallet' : WalletDoc} (h : Enters faults T wallet' w) : wallet' = wallet :=
    Option.some.inj (h.found.symm.trans hwallet)
  by_cases hcovers : wallet.Covers T.movement.gte
  swap
  · obtain ⟨e, he⟩ := hk.refused wallet hcovers
    refine ⟨_, w, by rw [he]; rfl, .inr ⟨not_exists.mpr fun _ h => hcovers ?_, rfl, e, rfl⟩⟩
    exact honly h ▸ h.covers
  obtain ⟨giveUp, hgo⟩ := hk.covered wallet hcovers
  simp only [hgo, run_bind]
  by_cases henters : faults (T.insert wallet) = .done ∧ (faults T.increment).applies
  · obtain ⟨r, w', hrun, hmade, hr⟩ := run_recordThenMove_moves (G := giveUp) hfresh hwallet
      hcovers henters.1 henters.2
    rw [hrun]
    have henter : Enters faults T wallet w := ⟨hwallet, hcovers, hread, henters.1, henters.2⟩
    split at hr <;> rename_i hdone
    · subst hr
      exact ⟨_, w', rfl, .inl ⟨wallet, henter, hmade, by rw [if_pos hdone]⟩⟩
    · obtain ⟨e, rfl⟩ := hr
      exact ⟨_, w', rfl, .inl ⟨wallet, henter, hmade, by rw [if_neg hdone]; exact ⟨e, rfl⟩⟩⟩
  · obtain ⟨e, w', hrun, hwallets⟩ := run_recordThenMove_kept (G := giveUp) hfresh henters
    rw [hrun]
    refine ⟨_, w', rfl, .inr ⟨not_exists.mpr fun wallet' h => henters ?_, hwallets, e, rfl⟩⟩
    rw [← honly h]
    exact ⟨h.recorded, h.moved⟩

/-- The shape deduct and credit share: look for the key, take the lock, look at
the wallet, then record and move. -/
theorem served_movement {again : Call ℚ} {k : Option WalletDoc → Call ℚ}
    (hfresh : ¬w.HasKey T.movement.key) (hk : Continues T k) :
    Served faults uuid T w ((TransactionService.existsByIdempotencyKey T.movement.key >>=
      fun already => if already then again else
        LockService.withLock uuid T.movement.userId (query T.read >>= k)).run exec faults w) := by
  rw [TransactionService.existsByIdempotencyKey, bind_bind]
  by_cases hcounted : faults T.count = .done
  swap
  · obtain ⟨e, hrun⟩ := run_read_bind_thrown exec faults _ (x := w) rfl hcounted
    rw [hrun]
    exact .kept e w (not_exists.mpr fun _ h => hcounted h.counted) fun _ => rfl
  have hzero : exec T.count w = ((0 : ℕ), w) := by
    have hnil : w.transactions.filter (fun t => t.idempotencyKey = T.movement.key) = [] :=
      List.filter_eq_nil_iff.mpr fun t ht hk => hfresh ⟨t, ht, of_decide_eq_true hk⟩
    simp [exec, hnil]
  rw [run_send_bind_done exec faults _ w hcounted, hzero]
  simp only [pure_eq, ret_bind, Nat.lt_irrefl, decide_false, Bool.false_eq_true, if_false]
  by_cases htaken : faults (.setLock T.lock uuid) = .done ∧ w.locks T.lock = none
  swap
  · obtain ⟨e, y, hrun, hy⟩ := run_withLock_refused (query T.read >>= k) htaken
    rw [hrun]
    exact .kept e y (not_exists.mpr fun _ h => htaken ⟨h.locked, h.free⟩) fun userId => by
      rw [Store.balance, hy, Store.balance]
  obtain ⟨hlocked, hfree⟩ := htaken
  obtain ⟨r, w', hrun, hwallets, htransactions, hr⟩ :=
    run_withLock_taken (query T.read >>= k) hlocked hfree
  obtain ⟨res, x, hinside, hcase⟩ := run_inside faults
    (w := { w with locks := Function.update w.locks T.lock (some uuid) }) hfresh hk
  rw [hrun]
  rw [hinside] at hwallets htransactions hr
  rcases hcase with ⟨wallet, henter, hmade, hres⟩ | ⟨hno, hsame, e, rfl⟩
  · have hmoves : Moves faults uuid T wallet w := ⟨⟨henter.found, henter.covers, henter.read,
      henter.recorded, henter.moved⟩, hcounted, hlocked, hfree⟩
    have hmade' : Made w w' T.movement := Made.of_same ⟨hmade.record, hmade.balance⟩ hwallets
      htransactions
    have honly {wallet' : WalletDoc} (h : Answers faults uuid T wallet' w) : wallet' = wallet :=
      Option.some.inj (h.found.symm.trans henter.found)
    by_cases hdone : faults T.increment = .done ∧
        faults (T.complete wallet w.transactions.length) = .done
    · rw [if_pos hdone] at hres
      by_cases hrelease : faults (.evalRelease T.lock uuid) = .done
      · have hbalance : w'.balance T.movement.userId = wallet.balance + T.movement.amount := by
          rw [hmade'.balance, if_pos rfl]
          simp [Store.balance, hmoves.found]
        rw [if_pos hrelease, hres, ← hbalance] at hr
        rw [hr]
        exact .answered w' ⟨wallet, hmoves, hdone.1, hdone.2, hrelease⟩ hmade'
      · rw [if_neg hrelease] at hr
        obtain ⟨e, rfl⟩ := hr
        exact .lost e w' ⟨wallet, hmoves⟩ (not_exists.mpr fun _ h => hrelease h.released) hmade'
    · rw [if_neg hdone] at hres
      obtain ⟨e, rfl⟩ := hres
      obtain ⟨e', rfl⟩ : ∃ e', r = .error e' := by
        split at hr
        · exact ⟨e, hr⟩
        · exact hr
      exact .lost e' w' ⟨wallet, hmoves⟩
        (not_exists.mpr fun _ h => hdone ⟨h.answered, honly h ▸ h.completed⟩) hmade'
  · obtain ⟨e', rfl⟩ : ∃ e', r = .error e' := by
      split at hr
      · exact ⟨e, hr⟩
      · exact hr
    refine .kept e' w' (not_exists.mpr fun wallet h => hno ?_) fun userId => ?_
    · exact ⟨wallet, h.found, h.covers, h.read, h.recorded, h.moved⟩
    · rw [Store.balance, hwallets, hsame, Store.balance]

theorem served_deduct (uuid : ℕ) (dto : InternalMoveDto) (hfresh : ¬w.HasKey dto.debit.key) :
    Served faults uuid dto.deduction w
      ((InternalWalletService.deduct uuid dto).run exec faults w) :=
  served_movement (T := dto.deduction) hfresh
    { missing := ⟨_, rfl⟩
      refused := fun wallet hcovers => by
        have hlt : wallet.balance < dto.amount := not_le.mp hcovers
        exact ⟨_, if_pos hlt⟩
      covered := fun wallet hcovers => by
        have hle : dto.amount ≤ wallet.balance := hcovers
        exact ⟨_, (if_neg (not_lt.mpr hle)).trans rfl⟩ }

theorem served_credit (uuid : ℕ) (dto : InternalMoveDto) (hfresh : ¬w.HasKey dto.credit.key) :
    Served faults uuid dto.crediting w
      ((InternalWalletService.credit uuid dto).run exec faults w) :=
  served_movement (T := dto.crediting) hfresh
    { missing := ⟨_, rfl⟩
      refused := fun _ hcovers => absurd trivial hcovers
      covered := fun _ _ => ⟨_, rfl⟩ }

end Sequential
end StockMarket.Wallet
