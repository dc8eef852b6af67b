import StockMarket.Wallet.Bookkeeping
import StockMarket.Wallet.AdjustmentKeys

/-! # The balance and the transaction ledger

Run one after another, the wallet's operations keep the balance equal to the
sum of its COMPLETED records, but for the digits a manual adjustment rounds
away: it stores the new balance with six decimals and records the amount as
it was given.
-/

namespace StockMarket.Wallet
open Interleaving Prog

/-- An adjustment of the user's wallet that is carried out leaves a balance that
needs no more than six decimals. -/
def Exact (s : Store) (userId : String) : Event Request Environment → Prop
  | .call (.manualAdjustment targetUserId amount _ _) =>
      targetUserId = userId → s.locks (walletLock userId) = none → (s.wallets userId).isSome →
        0 ≤ s.balance userId + amount → HasDecimals 6 (s.balance userId + amount)
  | _ => True

theorem rounding_eq_zero_iff (s : Store) (userId : String) (e : Event Request Environment) :
    rounding s userId e = 0 ↔ Exact s userId e := by
  cases e with
  | env y => exact iff_of_true rfl trivial
  | call r =>
    cases r with
    | manualAdjustment targetUserId amount justification cmsUserId =>
      rw [rounding, Exact]
      by_cases h : targetUserId = userId ∧ s.locks (walletLock userId) = none ∧
          (s.wallets userId).isSome ∧ 0 ≤ s.balance userId + amount
      · obtain ⟨hu, hfree, hw, hnonneg⟩ := h
        rw [if_pos ⟨hu, hfree, hw, hnonneg⟩, sub_eq_zero]
        exact ⟨fun h _ _ _ _ => hasDecimals_of_toFixed_eq hnonneg h,
          fun h => toFixed_eq_self hnonneg (h hu hfree hw hnonneg)⟩
      · rw [if_neg h]
        exact iff_of_true rfl fun hu hfree hw hnonneg => absurd ⟨hu, hfree, hw, hnonneg⟩ h
    | _ => exact iff_of_true rfl trivial

section Run
variable {withdrawalHoldHrs n : ℕ} {s : Store} {userId : String}

/-- Every event keeps what the balance exceeds the ledger by, but for what an
adjustment rounds away. -/
theorem gap_occur (userId : String) (hfresh : FreshKeys n s) (e : Event Request Environment) :
    gap (e.occur backend (Request.serve withdrawalHoldHrs) n s).2 userId =
      gap s userId + rounding s userId e := by
  cases e with
  | env y => cases y <;> exact (add_zero _).symm
  | call r =>
    have hserve {α : Type} {g : ℚ} (p : Call α) (respond : α → Response)
        (h : gap (p.run exec answered s).2 userId = g) :
        gap ((p >>= fun a => pure (respond a)).run exec answered s).2 userId = g := by
      refine (bookkept_gap userId g).bind_quiet ?_ h
      intro _
      trivial
    by_cases hno : NoAdjustments [.call r]
    · have hrounding : rounding s userId (.call r) = 0 := by
        cases r with
        | manualAdjustment targetUserId amount justification cmsUserId =>
          exact absurd List.mem_cons_self (hno targetUserId amount justification cmsUserId)
        | _ => rfl
      rw [hrounding, add_zero]
      exact (settles_occur withdrawalHoldHrs userId hno n s).gap_eq
    simp only [NoAdjustments, List.mem_singleton, not_forall, not_not] at hno
    obtain ⟨targetUserId, amount, justification, cmsUserId, hr⟩ := hno
    cases hr
    refine hserve _ _ (gap_manualAdjustment n targetUserId amount justification cmsUserId
      s ?_)
    intro hk
    obtain ⟨t, ht, hkey⟩ := hk
    exact hfresh t ht n le_rfl _ _ hkey

theorem freshKeys_occur {e : Event Request Environment} (hfresh : FreshKeys n s)
    (he : ∀ input, e = .call (.processStripeDeposit input) → input.Initiated) :
    FreshKeys (n + 1) (e.occur backend (Request.serve withdrawalHoldHrs) n s).2 := by
  have hnext : FreshKeys (n + 1) s := fun t ht m hm => hfresh t ht m (Nat.le_of_succ_le hm)
  cases e with
  | env y => cases y <;> exact hnext
  | call r =>
    have hsends := r.sends_ownKey withdrawalHoldHrs n fun input hr => he input (hr ▸ rfl)
    have hrun := hsends.run_invariant exec answered (I := FreshKeys (n + 1))
      (fun op x hop hx => hx.exec hop) s hnext
    exact hrun

end Run

/-- The store after a sequential run of the wallet service. -/
abbrev afterEvents (withdrawalHoldHrs : ℕ) (store : Store)
    (events : List (Event Request Environment)) : Store :=
  after backend (Request.serve withdrawalHoldHrs) 0 store events

/-- The balance is what the COMPLETED records say after every part of a run,
exactly where no adjustment of the wallet is rounded. -/
theorem reconciles_iff_exact (withdrawalHoldHrs : ℕ) (store : Store) (userId : String)
    (events : List (Event Request Environment)) (hbalance : store.balance userId = 0)
    (hempty : store.transactions = [])
    (hkeys : ∀ input, .call (.processStripeDeposit input) ∈ events → input.Initiated) :
    (∀ part, part <+: events → Reconciles (afterEvents withdrawalHoldHrs store part) userId) ↔
      ∀ part e rest, events = part ++ e :: rest →
        Exact (afterEvents withdrawalHoldHrs store part) userId e := by
  have hfresh (part rest : List (Event Request Environment)) (hpart : events = part ++ rest) :
      FreshKeys part.length (afterEvents withdrawalHoldHrs store part) := by
    rw [← Nat.zero_add part.length]
    refine after_invariant backend (Request.serve withdrawalHoldHrs) (I := FreshKeys)
      (fun n x e he hx => freshKeys_occur hx ?_) ?_
    · rintro input rfl
      exact hkeys input (hpart ▸ List.mem_append_left rest he)
    · intro t ht
      simp [hempty] at ht
  have hgap (part : List (Event Request Environment)) (e : Event Request Environment)
      (rest : List (Event Request Environment)) (hpart : events = part ++ e :: rest) :
      gap (afterEvents withdrawalHoldHrs store (part ++ [e])) userId =
        gap (afterEvents withdrawalHoldHrs store part) userId +
          rounding (afterEvents withdrawalHoldHrs store part) userId e := by
    rw [afterEvents, after_concat]
    exact gap_occur userId (hfresh part _ hpart) e
  simp only [reconciles_iff_gap, ← rounding_eq_zero_iff]
  constructor
  · intro hrec part e rest hpart
    have hstep := hgap part e rest hpart
    rwa [hrec (part ++ [e]) ⟨rest, by simp [hpart]⟩, hrec part ⟨e :: rest, hpart.symm⟩, zero_add,
      eq_comm] at hstep
  · intro hexact part
    induction part using List.reverseRecOn with
    | nil =>
      intro _
      simp [gap, hbalance, ledger, hempty]
    | append_singleton part e ih =>
      rintro ⟨rest, hpart⟩
      have hsplit : events = part ++ e :: rest := by simp [← hpart]
      rw [hgap part e rest hsplit, ih ⟨e :: rest, hsplit.symm⟩, hexact part e rest hsplit, add_zero]

def openAndAdjust (amount : ℚ) : List (Event Request Environment) :=
  [.call (.ensureWallet "member"),
    .call (.manualAdjustment "member" amount "goodwill gesture" "cms")]

theorem reconciles_iff_exact_cents :
    Reconciles (afterEvents 24 .empty (openAndAdjust (5 / 4))) "member" := by
  refine (reconciles_iff_exact 24 .empty "member" (openAndAdjust (5 / 4)) rfl rfl
    (by simp [openAndAdjust])).mpr (fun part e rest h => ?_) _ List.prefix_rfl
  rcases part with _ | ⟨a, _ | ⟨b, part⟩⟩
  · cases h
    trivial
  · cases h
    exact fun _ _ _ _ => by decide +kernel
  · simp [openAndAdjust] at h

/-- A credit of less than half a unit of the sixth decimal is recorded as a
COMPLETED record, and leaves the balance at 0. -/
theorem rounded_adjustment_unreconciled :
    ¬Reconciles (afterEvents 24 .empty (openAndAdjust (1 / 2500000))) "member" := by
  decide +kernel

end StockMarket.Wallet
