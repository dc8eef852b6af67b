import StockMarket.Wallet.Service
import StockMarket.Interleaving.Protocol

/-! # What the wallet calls send

The protocol of each request: which operations its call may send, given those
it has had carried out. Every service function is walked through once here;
the invariants of the store only use the protocol.
-/

namespace StockMarket.Wallet
open Interleaving Prog

/-- The operations of one call with their replies, newest first. -/
abbrev History := List (Reaction WalletOp WalletOp.Reply)

def tries : Reaction WalletOp WalletOp.Reply → Bool
  | ⟨.incBalance _ _ _ _, _⟩ => true
  | ⟨.setBalance _ _, _⟩ => true
  | _ => false

def moves : Reaction WalletOp WalletOp.Reply → Bool
  | ⟨.incBalance _ _ _ _, reply⟩ => reply.isSome
  | ⟨.setBalance _ _, _⟩ => true
  | _ => false

def Tried (h : History) : Prop := ∃ x ∈ h, tries x = true

def Moved (h : History) : Prop := ∃ x ∈ h, moves x = true

/-- The call has inserted a record with this `_id` under the key. -/
def Created (h : History) (transactionId : ℕ) (key : String) : Prop :=
  ∃ doc : Transaction, doc.idempotencyKey = key ∧
    ⟨.createTransaction doc, some transactionId⟩ ∈ h

def Found (h : History) (transactionId : ℕ) (t : Transaction) : Prop :=
  ⟨.findTransaction transactionId, some t⟩ ∈ h

def Completed (h : History) (transactionId : ℕ) : Prop :=
  ∃ balanceAfter cmsUserId,
    ⟨.updateTransaction transactionId (.completed balanceAfter cmsUserId), ()⟩ ∈ h

/-- The call has taken the lock and has not had its release carried out. -/
def Holds (uuid : ℕ) (key : String) : History → Prop
  | [] => False
  | ⟨.setLock k token, ok⟩ :: h => (k = key ∧ token = uuid ∧ ok = true) ∨ Holds uuid key h
  | ⟨.evalRelease k _, _⟩ :: h => k ≠ key ∧ Holds uuid key h
  | _ :: h => Holds uuid key h

def Counted (h : History) (key : String) : Prop :=
  ∃ n : ℕ, 0 < n ∧ ⟨.countByIdempotencyKey key, n⟩ ∈ h

section History
variable {h : History} {x : Reaction WalletOp WalletOp.Reply}

@[simp] theorem tried_nil : ¬Tried [] := by simp [Tried]

@[simp] theorem tried_cons : Tried (x :: h) ↔ tries x = true ∨ Tried h := by simp [Tried]

@[simp] theorem moved_nil : ¬Moved [] := by simp [Moved]

@[simp] theorem moved_cons : Moved (x :: h) ↔ moves x = true ∨ Moved h := by simp [Moved]

theorem tries_of_moves (hx : moves x = true) : tries x = true := by
  obtain ⟨op, reply⟩ := x
  cases op <;> simp_all [moves, tries]

theorem Moved.tried (hm : Moved h) : Tried h := by
  obtain ⟨x, hx, hmoves⟩ := hm
  exact ⟨x, hx, tries_of_moves hmoves⟩

theorem Created.cons {transactionId : ℕ} {key : String} (hc : Created h transactionId key) :
    Created (x :: h) transactionId key := by
  obtain ⟨doc, hk, hd⟩ := hc
  exact ⟨doc, hk, List.mem_cons_of_mem _ hd⟩

theorem Found.cons {transactionId : ℕ} {t : Transaction} (hf : Found h transactionId t) :
    Found (x :: h) transactionId t := List.mem_cons_of_mem _ hf

theorem Completed.cons {transactionId : ℕ} (hc : Completed h transactionId) :
    Completed (x :: h) transactionId := by
  obtain ⟨b, c, hm⟩ := hc
  exact ⟨b, c, List.mem_cons_of_mem _ hm⟩

theorem Counted.cons {key : String} (hc : Counted h key) : Counted (x :: h) key := by
  obtain ⟨n, hn, hm⟩ := hc
  exact ⟨n, hn, List.mem_cons_of_mem _ hm⟩

end History

/-- A movement under an idempotency key: an increment of one wallet's balance,
which a debit only makes when the balance covers it. -/
structure Movement where
  userId : String
  key : String
  amount : ℚ
  gte : Option ℚ
  isDeposit : Bool
  guarded : 0 < amount ∨ gte = some (-amount)

def StripeDepositInput.movement (input : StripeDepositInput) : Movement :=
  ⟨input.userId, input.idempotencyKey, input.amount, none, true, .inl input.amount_pos⟩

def InternalMoveDto.debit (dto : InternalMoveDto) : Movement :=
  ⟨dto.userId, s!"trade:deduct:{dto.orderId}", -dto.amount, some dto.amount, false,
    .inr (by rw [neg_neg])⟩

def InternalMoveDto.credit (dto : InternalMoveDto) : Movement :=
  ⟨dto.userId, s!"trade:credit:{dto.orderId}", dto.amount, none, false, .inl dto.amount_pos⟩

/-- The movement a deposit, deduct or credit asks for. -/
def Request.movement : Request → Option Movement
  | .processStripeDeposit input => some input.movement
  | .deduct dto => some dto.debit
  | .credit dto => some dto.credit
  | _ => none

def Request.approval : Request → Option ℕ
  | .approveWithdrawal transactionId _ _ => some transactionId
  | _ => none

def Request.rejection : Request → Option ℕ
  | .rejectWithdrawal transactionId _ _ _ => some transactionId
  | _ => none

/-- The wallet a request adjusts by hand, and by how much. -/
def Request.adjustment : Request → Option (String × ℚ)
  | .manualAdjustment targetUserId amount _ _ => some (targetUserId, amount)
  | _ => none

theorem Request.only_movement {r : Request} {m : Movement} (hm : r.movement = some m) :
    r.approval = none ∧ r.rejection = none ∧ r.adjustment = none := by
  cases r <;> simp [movement, approval, rejection, adjustment] at hm ⊢

theorem Request.only_approval {r : Request} {t : ℕ} (ht : r.approval = some t) :
    r.movement = none ∧ r.rejection = none ∧ r.adjustment = none := by
  cases r <;> simp [movement, approval, rejection, adjustment] at ht ⊢

namespace Request

/-- How store calls end that leave an approval's debit and its record in step:
a debit that is carried out is answered, and the completion of the record is
carried out. -/
def EndsWell (r : Request) (op : WalletOp) (o : Outcome Exception) : Prop :=
  r.approval.isSome → (op.isCompletion → o.applies) ∧ (op.isIncBalance → o.applies → o = .done)

instance (r : Request) (op : WalletOp) (o : Outcome Exception) : Decidable (r.EndsWell op o) :=
  inferInstanceAs (Decidable (_ → _ ∧ _))

/-- An approval that has debited gives its lock back only after it has
completed the record. -/
def Releases (reliable : Prop) (r : Request) (h : History) : Prop :=
  reliable → ∀ t, r.approval = some t → Moved h → Completed h t

def MayIncrement (uuid : ℕ) (r : Request) (h : History) (userId : String) (gte : Option ℚ)
    (amount : ℚ) (isDeposit : Bool) : Prop :=
  ¬Tried h ∧
    ((∃ m, r.movement = some m ∧ userId = m.userId ∧ gte = m.gte ∧ amount = m.amount ∧
        isDeposit = m.isDeposit ∧ ∃ transactionId, Created h transactionId m.key) ∨
     ∃ t transaction, r.approval = some t ∧ Found h t transaction ∧
        transaction.type = .withdrawal ∧ transaction.status = .pending ∧
        userId = transaction.userId ∧ gte = some transaction.amount ∧
        amount = -transaction.amount ∧ isDeposit = false ∧
        Holds uuid (walletLock transaction.userId) h)

def MayUpdate (uuid : ℕ) (r : Request) (h : History) (transactionId : ℕ)
    (set : TransactionUpdate) : Prop :=
  (∃ m, r.movement = some m ∧ Created h transactionId m.key ∧
      (set.status = .completed → Moved h)) ∨
  (r.approval = some transactionId ∧ Tried h ∧ (set.status = .completed ↔ Moved h) ∧
      ∃ transaction, Found h transactionId transaction ∧
        Holds uuid (walletLock transaction.userId) h) ∨
  (r.rejection = some transactionId ∧ set.status = .rejected ∧
      ∃ transaction, Found h transactionId transaction ∧ transaction.status = .pending)

def MaySet (format : Rounding.Format) (r : Request) (h : History) (userId : String)
    (balance : ℚ) : Prop :=
  ¬Tried h ∧ ∃ amount wallet, r.adjustment = some (userId, amount) ∧
    ⟨.findWallet userId, some wallet⟩ ∈ h ∧ 0 ≤ format.sum wallet.balance amount ∧
    balance = toFixed 6 (format.sum wallet.balance amount)

/-- What a call serving `r` may send after the operations `h` of its own, when
sums are taken in the format. -/
def MayWith (format : Rounding.Format) (reliable : Prop) (uuid : ℕ) (r : Request) (h : History) :
    WalletOp → Prop
  | .countByIdempotencyKey key => ∃ m, r.movement = some m ∧ key = m.key
  | .createTransaction doc =>
      (r.adjustment = none → doc.status = .pending) ∧
        ∀ m, r.movement = some m →
          doc.userId = m.userId ∧ doc.idempotencyKey = m.key ∧ doc.amount = |m.amount|
  | .updateTransaction transactionId set => r.MayUpdate uuid h transactionId set
  | .incBalance userId gte amount isDeposit => r.MayIncrement uuid h userId gte amount isDeposit
  | .setBalance userId balance => r.MaySet format h userId balance
  | .setLock _ token => token = uuid ∧ ¬Tried h
  | .evalRelease _ token => token = uuid ∧ r.Releases reliable h
  | _ => True

/-- The same in exact decimal arithmetic. -/
def May (reliable : Prop) (uuid : ℕ) (r : Request) (h : History) (op : WalletOp) : Prop :=
  r.MayWith .exact reliable uuid h op

/-- A movement that is acknowledged was either counted before or made. -/
def Acknowledged (r : Request) (h : History) : Prop :=
  ∀ m, r.movement = some m → Counted h m.key ∨ Moved h

end Request

/-- The protocol of a pool of requests. When `reliable`, store calls end well
and approvals settle their record before they release their lock. -/
def protocolWith (format : Rounding.Format) (reliable : Prop) (requests : ℕ → Request) :
    Protocol ℕ WalletOp WalletOp.Reply Exception Response where
  may i := (requests i).MayWith format reliable i
  ends i op o := reliable → (requests i).EndsWell op o
  post i := Returns fun h _ => (requests i).Acknowledged h

/-- The same in exact decimal arithmetic. -/
def protocol (reliable : Prop) (requests : ℕ → Request) :
    Protocol ℕ WalletOp WalletOp.Reply Exception Response :=
  protocolWith .exact reliable requests

section Walk
variable {format : Rounding.Format} {reliable : Prop} {uuid : ℕ} {r : Request} {h : History}
  {α : Type}

/-- A call made for `r` keeps to the protocol and, when it returns, `Q` holds. -/
abbrev Request.Follows (format : Rounding.Format) (reliable : Prop) (uuid : ℕ) (r : Request)
    (Q : History → α → Prop) (h : History) (p : Call α) : Prop :=
  p.Obeys (r.MayWith format reliable uuid) (fun op o => reliable → r.EndsWell op o) (Returns Q) h

/-- What happens under the lock must end in a state that allows the release. -/
theorem follows_withLock {userId : String} {fn : Call α} {Q : History → α → Prop} (hh : ¬Tried h)
    (hfn : fn.Obeys (r.MayWith format reliable uuid) (fun op o => reliable → r.EndsWell op o)
      (fun h' res => r.Releases reliable h' ∧ Returns Q h' res)
      (⟨.setLock (walletLock userId) uuid, true⟩ :: h))
    (hQ : ∀ h' x a, Q h' a → Q (x :: h') a) :
    r.Follows format reliable uuid Q h (LockService.withLock uuid userId fn) := by
  refine Obeys.bindReturns (Q := fun h' token =>
    ∀ t, token = some t → t = uuid ∧ h' = ⟨.setLock (walletLock userId) uuid, true⟩ :: h) ?_ ?_
  · apply Obeys.send ⟨rfl, hh⟩
    intro ok
    cases ok <;> simp
  · intro h' token htoken
    cases token with
    | none => trivial
    | some t =>
      obtain ⟨rfl, rfl⟩ := htoken t rfl
      apply hfn.finallyDo
      intro h'' res hres
      apply Obeys.step
      · exact ⟨rfl, hres.1⟩
      · intro _ released
        cases res with
        | ok a => exact hQ h'' _ a hres.2
        | error e => trivial
      · exact fun _ _ => trivial
      · exact fun _ _ _ => trivial

theorem follows_withLock_of_not_approval (hr : r.approval = none) {userId : String} {fn : Call α}
    {Q : History → α → Prop} (hh : ¬Tried h)
    (hfn : r.Follows format reliable uuid Q (⟨.setLock (walletLock userId) uuid, true⟩ :: h) fn)
    (hQ : ∀ h' x a, Q h' a → Q (x :: h') a) :
    r.Follows format reliable uuid Q h (LockService.withLock uuid userId fn) := by
  refine follows_withLock hh (hfn.mono ?_) hQ
  intro h' res hres
  refine ⟨?_, hres⟩
  intro _ t ht
  simp [hr] at ht

section Movement
variable {m : Movement}

theorem follows_create {input : CreateTransactionInput} {Q : History → ℕ → Prop}
    (hmay : r.MayWith format reliable uuid h (.createTransaction input.doc))
    (hQ : ∀ id, Q (⟨.createTransaction input.doc, some id⟩ :: h) id) :
    r.Follows format reliable uuid Q h (TransactionService.create input) := by
  apply Obeys.send hmay
  intro reply
  cases reply with
  | none => trivial
  | some id => exact hQ id

theorem follows_recordThenMove (hm : r.movement = some m) {record : CreateTransactionInput}
    {giveUp : ℕ → Call (ℕ × ℚ)}
    (hrecord : record.userId = m.userId ∧ record.idempotencyKey = m.key ∧
      record.status = .pending ∧ record.amount = |m.amount|)
    (hgive : ∀ id h', Created h' id m.key →
      r.Follows format reliable uuid (fun h _ => Moved h) h' (giveUp id))
    (hh : ¬Tried h) :
    r.Follows format reliable uuid (fun h _ => Moved h) h
      (recordThenMove record m.gte m.amount m.isDeposit giveUp) := by
  obtain ⟨huser, hkey, hstatus, hamount⟩ := hrecord
  refine Obeys.bindReturns (Q := fun h' id => ¬Tried h' ∧ Created h' id m.key)
    (follows_create ⟨fun _ => hstatus, ?_⟩ ?_) ?_
  · intro m' hm'
    cases hm.symm.trans hm'
    exact ⟨huser, hkey, hamount⟩
  · intro id
    exact ⟨by simpa [tries] using hh, _, hkey, List.mem_cons_self⟩
  · rintro h' id ⟨hh', hc⟩
    apply Obeys.send ⟨hh', .inl ⟨m, hm, huser, rfl, rfl, rfl, id, hc⟩⟩
    intro reply
    cases reply with
    | none => exact hgive id _ hc.cons
    | some w =>
      refine Obeys.send (.inl ⟨m, hm, hc.cons, fun _ => by simp [moves]⟩) ?_
      intro _
      exact by simp [moves]

end Movement

/-- The early return of a repeated key, and otherwise the movement. -/
theorem follows_unless_exists {m : Movement} (hm : r.movement = some m) {again fresh : Call α}
    {Q : History → α → Prop}
    (hagain : ∀ h', Counted h' m.key → r.Follows format reliable uuid Q h' again)
    (hfresh : r.Follows format reliable uuid Q [⟨.countByIdempotencyKey m.key, (0 : ℕ)⟩] fresh) :
    r.Follows format reliable uuid Q [] (TransactionService.existsByIdempotencyKey m.key >>=
      fun already => if already then again else fresh) := by
  refine Obeys.bindReturns (Q := fun h' already =>
    ∃ n : ℕ, already = decide (0 < n) ∧ h' = [⟨.countByIdempotencyKey m.key, n⟩]) ?_ ?_
  · exact Obeys.send ⟨m, hm, rfl⟩ fun n => ⟨n, rfl, rfl⟩
  · rintro h' _ ⟨n, rfl, rfl⟩
    by_cases hn : 0 < n
    · simp only [hn, decide_true, if_true]
      exact hagain _ ⟨n, hn, List.mem_cons_self⟩
    · obtain rfl : n = 0 := by omega
      exact hfresh

private theorem counted_or_moved_cons {key : String} (x : Reaction WalletOp WalletOp.Reply)
    (hq : Counted h key ∨ Moved h) : Counted (x :: h) key ∨ Moved (x :: h) :=
  hq.imp Counted.cons fun hm => moved_cons.mpr (.inr hm)

theorem follows_processStripeDeposit (input : StripeDepositInput) :
    (Request.processStripeDeposit input).Follows format reliable uuid
      (fun h _ => Counted h input.idempotencyKey ∨ Moved h) []
      (WalletService.processStripeDeposit uuid input) := by
  refine follows_unless_exists (m := input.movement) rfl (fun h' hc => .inl hc) ?_
  refine follows_withLock_of_not_approval rfl (by simp [tries]) ?_
    fun _ x _ => counted_or_moved_cons x
  apply Obeys.send trivial
  intro wallet
  refine Obeys.bindReturns (follows_recordThenMove (m := input.movement) rfl ⟨rfl, rfl, rfl, ?_⟩
    (fun _ _ _ => True.intro) ?_) ?_
  · exact (abs_of_pos input.amount_pos).symm
  · simp [tries]
  · intro h' _ hmoved
    exact Obeys.send trivial fun _ => .inr (moved_cons.mpr (.inr hmoved))

theorem follows_currentBalance {userId key : String} (hc : Counted h key) :
    r.Follows format reliable uuid (fun h _ => Counted h key ∨ Moved h) h
      (InternalWalletService.currentBalance userId) := by
  apply Obeys.send trivial
  intro reply
  cases reply with
  | none => trivial
  | some wallet => exact .inl hc.cons

theorem follows_deduct (dto : InternalMoveDto) :
    (Request.deduct dto).Follows format reliable uuid
      (fun h _ => Counted h s!"trade:deduct:{dto.orderId}" ∨ Moved h) []
      (InternalWalletService.deduct uuid dto) := by
  refine follows_unless_exists (m := dto.debit) rfl (fun h' hc => follows_currentBalance hc) ?_
  refine follows_withLock_of_not_approval rfl (by simp [tries]) ?_
    fun _ x _ => counted_or_moved_cons x
  apply Obeys.send trivial
  intro reply
  cases reply with
  | none => trivial
  | some wallet =>
    dsimp only
    split
    · trivial
    refine Obeys.bindReturns (follows_recordThenMove (m := dto.debit) rfl ⟨rfl, rfl, rfl, ?_⟩
      ?_ ?_) fun h' _ hmoved => .inr hmoved
    · exact (abs_neg dto.amount).trans (abs_of_pos dto.amount_pos) |>.symm
    · intro id h' hc
      exact Obeys.send (.inl ⟨_, rfl, hc, by simp [TransactionUpdate.status]⟩) fun _ => trivial
    · simp [tries]

theorem follows_credit (dto : InternalMoveDto) :
    (Request.credit dto).Follows format reliable uuid
      (fun h _ => Counted h s!"trade:credit:{dto.orderId}" ∨ Moved h) []
      (InternalWalletService.credit uuid dto) := by
  refine follows_unless_exists (m := dto.credit) rfl (fun h' hc => follows_currentBalance hc) ?_
  refine follows_withLock_of_not_approval rfl (by simp [tries]) ?_
    fun _ x _ => counted_or_moved_cons x
  apply Obeys.send trivial
  intro reply
  cases reply with
  | none => trivial
  | some wallet =>
    refine Obeys.bindReturns (follows_recordThenMove (m := dto.credit) rfl ⟨rfl, rfl, rfl, ?_⟩
      (fun _ _ _ => True.intro) ?_) fun h' _ hmoved => .inr hmoved
    · exact (abs_of_pos dto.amount_pos).symm
    · simp [tries]

theorem follows_getWallet {userId : String} {Q : History → WalletDoc → Prop}
    (hQ : ∀ wallet, Q (⟨.findWallet userId, some wallet⟩ :: h) wallet) :
    r.Follows format reliable uuid Q h (WalletService.getWallet userId) := by
  apply Obeys.send trivial
  intro reply
  cases reply with
  | none => trivial
  | some wallet => exact hQ wallet

theorem follows_requestWithdrawal (withdrawalHoldHrs : ℕ) (member : MemberContext)
    (dto : WithdrawDto) :
    (Request.requestWithdrawal member dto).Follows format reliable uuid (fun _ _ => True) []
      (WalletService.requestWithdrawal withdrawalHoldHrs uuid member dto) := by
  have hsubmit (h : History) (wallet : WalletDoc) :
      (Request.requestWithdrawal member dto).Follows format reliable uuid (fun _ _ => True) h
        (WalletService.requestWithdrawal.submit uuid member dto wallet) := by
    unfold WalletService.requestWithdrawal.submit
    split
    · trivial
    refine Obeys.bindReturns (Q := fun _ _ => True) (follows_create ?_ fun _ => trivial) ?_
    · exact ⟨fun _ => rfl, fun _ hm => by cases hm⟩
    · exact fun _ _ _ => Obeys.send trivial fun _ => trivial
  refine Obeys.bindReturns (Q := fun _ _ => True) (follows_getWallet fun _ => trivial) ?_
  intro h' wallet _
  split
  · apply Obeys.send trivial
    intro now
    split
    · trivial
    · exact hsubmit _ _
  · exact hsubmit _ _

theorem follows_findPendingWithdrawal {transactionId : ℕ} {Q : History → Transaction → Prop}
    (hQ : ∀ transaction, transaction.type = .withdrawal → transaction.status = .pending →
      Q (⟨.findTransaction transactionId, some transaction⟩ :: h) transaction) :
    r.Follows format reliable uuid Q h (WalletService.findPendingWithdrawal transactionId) := by
  apply Obeys.send trivial
  intro reply
  cases reply with
  | none => trivial
  | some transaction =>
    dsimp only
    split
    · trivial
    split
    · trivial
    rename_i htype hstatus
    exact hQ transaction (not_not.mp htype) (not_not.mp hstatus)

theorem releases_of_not_moved (hh : ¬Moved h) : r.Releases reliable h :=
  fun _ _ _ hm => absurd hm hh

theorem releases_of_completed {t : ℕ} (ht : r.approval = some t) (hc : Completed h t) :
    r.Releases reliable h := by
  intro _ t' ht' _
  cases ht.symm.trans ht'
  exact hc

/-- The two branches of an approval: a refused debit leaves nothing to settle,
a made one is followed at once by the completion of the record. -/
theorem follows_approveWithdrawal (transactionId : ℕ) (cmsUserId : String)
    (member : MemberContext) :
    (Request.approveWithdrawal transactionId cmsUserId member).Follows format reliable uuid
      (fun _ _ => True) []
      (WalletService.approveWithdrawal uuid transactionId cmsUserId member) := by
  refine Obeys.bindReturns (Q := fun (h : History) (transaction : Transaction) =>
    transaction.type = .withdrawal ∧ transaction.status = .pending ∧
      h = [⟨.findTransaction transactionId, some transaction⟩])
    (follows_findPendingWithdrawal fun _ ht hs => ⟨ht, hs, rfl⟩) ?_
  rintro _ transaction ⟨ht, hs, rfl⟩
  refine follows_withLock (by simp [tries]) ?_ fun _ _ _ _ => trivial
  have hfound : Found [⟨.setLock (walletLock transaction.userId) uuid, true⟩,
      ⟨.findTransaction transactionId, some transaction⟩] transactionId transaction := by
    simp [Found]
  -- once the debit is answered, the record may be settled accordingly
  have hsettle (reply : Option WalletDoc) (set : TransactionUpdate)
      (hset : set.status = .completed ↔ reply.isSome) :
      (Request.approveWithdrawal transactionId cmsUserId member).MayWith format reliable uuid
        [⟨.incBalance transaction.userId (some transaction.amount) (-transaction.amount) false,
            reply⟩,
          ⟨.setLock (walletLock transaction.userId) uuid, true⟩,
          ⟨.findTransaction transactionId, some transaction⟩]
        (.updateTransaction transactionId set) :=
    .inr (.inl ⟨rfl, by simp [tries], by simpa [moves] using hset, transaction, hfound.cons,
      .inl ⟨rfl, rfl, rfl⟩⟩)
  apply Obeys.step
  · exact ⟨by simp [tries], .inr ⟨transactionId, transaction, rfl, hfound, ht, hs, rfl, rfl, rfl,
      rfl, .inl ⟨rfl, rfl, rfl⟩⟩⟩
  · intro _ reply
    cases reply with
    | none =>
      -- nothing was debited, so that nothing is owed however the record is written
      apply Obeys.step
      · exact hsettle none _ (by simp [TransactionUpdate.status])
      · intro _ updated
        apply Obeys.step
        · trivial
        · exact fun _ _ => ⟨releases_of_not_moved (by simp [moves]), trivial⟩
        · exact fun _ _ => ⟨releases_of_not_moved (by simp [moves]), trivial⟩
        · exact fun _ _ _ => ⟨releases_of_not_moved (by simp [moves]), trivial⟩
      · exact fun _ _ => ⟨releases_of_not_moved (by simp [moves]), trivial⟩
      · exact fun _ _ _ => ⟨releases_of_not_moved (by simp [moves]), trivial⟩
    | some updated =>
      have hcompleted (h : History) : Completed (⟨.updateTransaction transactionId
          (.completed updated.balance cmsUserId), ()⟩ :: h) transactionId :=
        ⟨_, _, List.mem_cons_self⟩
      apply Obeys.step
      · exact hsettle (some updated) _ (by simp [TransactionUpdate.status])
      · intro _ _
        apply Obeys.step
        · trivial
        · exact fun _ _ => ⟨releases_of_completed rfl (hcompleted _).cons, trivial⟩
        · exact fun _ _ => ⟨releases_of_completed rfl (hcompleted _), trivial⟩
        · exact fun _ _ _ => ⟨releases_of_completed rfl (hcompleted _).cons, trivial⟩
      · intro e hfail
        refine ⟨?_, trivial⟩
        intro hr
        cases (hfail hr rfl).1 rfl
      · exact fun _ _ _ => ⟨releases_of_completed rfl (hcompleted _), trivial⟩
  · exact fun _ _ => ⟨releases_of_not_moved (by simp [moves]), trivial⟩
  · intro e hlost reply
    refine ⟨?_, trivial⟩
    intro hr
    cases (hlost hr rfl).2 rfl rfl

theorem follows_rejectWithdrawal (transactionId : ℕ) (reason cmsUserId : String)
    (member : MemberContext) :
    (Request.rejectWithdrawal transactionId reason cmsUserId member).Follows format reliable uuid
      (fun _ _ => True) []
      (WalletService.rejectWithdrawal transactionId reason cmsUserId member) := by
  refine Obeys.bindReturns (Q := fun h transaction =>
    Found h transactionId transaction ∧ transaction.status = .pending)
    (follows_findPendingWithdrawal fun transaction _ hs => ⟨List.mem_cons_self, hs⟩) ?_
  rintro h' transaction ⟨hf, hs⟩
  apply Obeys.send (.inr (.inr ⟨rfl, rfl, transaction, hf, hs⟩))
  intro _
  exact Obeys.send trivial fun _ => trivial

theorem follows_manualAdjustment (targetUserId : String) (amount : ℚ)
    (justification cmsUserId : String) :
    (Request.manualAdjustment targetUserId amount justification cmsUserId).Follows format reliable
      uuid (fun _ _ => True) []
      (WalletService.manualAdjustmentWith format uuid targetUserId (format.read amount)
        justification cmsUserId) := by
  refine follows_withLock_of_not_approval rfl tried_nil ?_ fun _ _ _ _ => trivial
  refine Obeys.bindReturns (Q := fun h wallet => ¬Tried h ∧
    ⟨.findWallet targetUserId, some wallet⟩ ∈ h) (follows_getWallet ?_) ?_
  · intro wallet
    exact ⟨by simp [tries], List.mem_cons_self⟩
  rintro h' wallet ⟨htried, hfind⟩
  dsimp only
  split
  · trivial
  rename_i hneg
  apply Obeys.send ⟨htried, amount, wallet, rfl, hfind, not_lt.mp hneg, rfl⟩
  intro _
  apply Obeys.send trivial
  intro processedAt
  refine Obeys.bindReturns (Q := fun _ _ => True) (follows_create ?_ fun _ => trivial)
    fun _ _ _ => trivial
  exact ⟨fun hno => (by cases hno), fun _ hm => by cases hm⟩

theorem Request.follows_serve (withdrawalHoldHrs : ℕ) (r : Request) :
    r.Follows format reliable uuid (fun h _ => r.Acknowledged h) []
      (r.serveWith format withdrawalHoldHrs uuid) := by
  have hmove {m : Movement} (hm : r.movement = some m) {h' : History}
      (hq : Counted h' m.key ∨ Moved h') : r.Acknowledged h' := fun _ hm' => by
    cases hm.symm.trans hm'
    exact hq
  have hnone (hm : r.movement = none) (h' : History) : r.Acknowledged h' := fun _ hm' => by
    cases hm.symm.trans hm'
  cases r with
  | ensureWallet userId => exact Obeys.send trivial fun _ => hnone rfl _
  | processStripeDeposit input =>
    exact (follows_processStripeDeposit input).bindReturns fun _ _ hq => hmove rfl hq
  | requestWithdrawal member dto =>
    exact (follows_requestWithdrawal withdrawalHoldHrs member dto).bindReturns
      fun _ _ _ => hnone rfl _
  | approveWithdrawal transactionId cmsUserId member =>
    exact (follows_approveWithdrawal transactionId cmsUserId member).bindReturns
      fun _ _ _ => hnone rfl _
  | rejectWithdrawal transactionId reason cmsUserId member =>
    exact (follows_rejectWithdrawal transactionId reason cmsUserId member).bindReturns
      fun _ _ _ => hnone rfl _
  | deduct dto => exact (follows_deduct dto).bindReturns fun _ _ hq => hmove rfl hq
  | credit dto => exact (follows_credit dto).bindReturns fun _ _ hq => hmove rfl hq
  | manualAdjustment targetUserId amount justification cmsUserId =>
    exact (follows_manualAdjustment targetUserId amount justification cmsUserId).bindReturns
      fun _ _ _ => hnone rfl _

end Walk

theorem State.conforms_startWith (format : Rounding.Format) (reliable : Prop)
    (withdrawalHoldHrs : ℕ) (store : Store) (requests : ℕ → Request) :
    (State.startWith format withdrawalHoldHrs store requests).Conforms
      (protocolWith format reliable requests) :=
  Config.conforms_start fun i => (requests i).follows_serve withdrawalHoldHrs

theorem State.conforms_start (reliable : Prop) (withdrawalHoldHrs : ℕ) (store : Store)
    (requests : ℕ → Request) :
    (State.start withdrawalHoldHrs store requests).Conforms (protocol reliable requests) :=
  State.conforms_startWith .exact reliable withdrawalHoldHrs store requests

end StockMarket.Wallet
