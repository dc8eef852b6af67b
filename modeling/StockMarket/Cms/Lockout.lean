import StockMarket.Cms.Sessions

/-! # When nobody is left

Without an active administrator, and once the tokens of those there were have expired,
no administrator ever comes back: the functions that make or free accounts are for
administrators, and a restart only seeds one where there is no administrator's account.
-/

namespace StockMarket.Cms
open Interleaving Prog

/-- There is an administrator's account, but none that is active, and no token of an
administrator verifies any more. -/
structure LockedOut (s : AccessStore) : Prop where
  seeded : ∃ user ∈ s.accounts.users, user.role = .administrator
  inactive : ∀ user ∈ s.accounts.users, user.role = .administrator → user.isActive = false
  expired : ∀ p ∈ s.issued, p.role = .administrator → p.exp ≤ s.now / 1000

/-- Nothing that calls have seen lets one of them act as an administrator. -/
structure LockedOutSeen (s : AccessStore) (log : List AccessEntry) : Prop where
  locked : LockedOut s
  counted : ∀ i, ⟨.countAdministrators, (0 : ℕ)⟩ ∉ own i log
  found : ∀ i email id user, ⟨.findActive email, some (id, user)⟩ ∈ own i log →
    user.role ≠ .administrator
  verified : ∀ i token payload, ⟨.verify token, some payload⟩ ∈ own i log →
    roleOf payload ≠ CmsRole.administrator.text

section Step
variable {setting : Setting} {requests : ℕ → AccessRequest} {s : AccessStore}
  {log : List AccessEntry} {i : ℕ} {op : AccessOp}

theorem LockedOut.of_same {s' : AccessStore} (h : LockedOut s)
    (husers : s'.accounts.users = s.accounts.users) (hissued : s'.issued = s.issued)
    (hnow : s.now ≤ s'.now) : LockedOut s' := by
  refine ⟨husers ▸ h.seeded, husers ▸ h.inactive, ?_⟩
  intro p hp hrole
  exact (h.expired p (hissued ▸ hp) hrole).trans (Nat.div_le_div_right hnow)

/-- A new password neither frees an account nor gives it another role. -/
theorem LockedOut.savePassword (h : LockedOut s) (id : ℕ) (passwordHash : Auth.Hash) :
    LockedOut (execAccess (.savePassword id passwordHash) s).2 := by
  have hmem {user : CmsUser}
      (huser : user ∈ s.accounts.users.modify id (CmsUser.setPassword passwordHash)) :
      ∃ old ∈ s.accounts.users, user.role = old.role ∧ user.isActive = old.isActive := by
    obtain ⟨n, hn⟩ := List.mem_iff_getElem?.mp huser
    rw [List.getElem?_modify] at hn
    obtain ⟨old, hold, rfl⟩ := Option.map_eq_some_iff.mp hn
    refine ⟨old, List.mem_of_getElem? hold, ?_⟩
    split <;> exact ⟨rfl, rfl⟩
  obtain ⟨admin, hadmin, hrole⟩ := h.seeded
  refine ⟨?_, ?_, h.expired⟩
  · obtain ⟨n, hn⟩ := List.mem_iff_getElem?.mp hadmin
    obtain ⟨user', huser', -, hrole'⟩ :=
      accountsKept_execAccess (.savePassword id passwordHash) s n admin hn
    exact ⟨user', List.mem_of_getElem? huser', hrole'.trans hrole⟩
  · intro user huser hrole
    obtain ⟨old, hold, hsame, hactive⟩ := hmem huser
    rw [hactive]
    exact h.inactive old hold (hsame ▸ hrole)

theorem LockedOutSeen.not_granted (hI : LockedOutSeen s log) (token : Option AccessToken) :
    ¬Granted token (own i log) := by
  rintro ⟨t, payload, -, hmem, hrole⟩
  exact hI.verified i t payload hmem hrole

theorem LockedOutSeen.locked_exec (hI : LockedOutSeen s log)
    (hmay : (requests i).May setting (own i log) op) : LockedOut (execAccess op s).2 := by
  cases op with
  | accounts op =>
    cases op with
    | createUser doc =>
      rcases hmay with ⟨token, -, hgranted⟩ | hcounted
      · exact absurd hgranted (hI.not_granted token)
      · exact absurd hcounted (hI.counted i)
    | deactivate id =>
      obtain ⟨token, -, hgranted⟩ := hmay
      exact absurd hgranted (hI.not_granted token)
    | _ => exact hI.locked.of_same rfl rfl le_rfl
  | sign payload =>
    obtain ⟨email, password, -, user, now, hfound, -, -, hpayload⟩ := hmay
    have hrole : payload.role ≠ .administrator := by
      rw [hpayload]
      exact hI.found i _ _ user hfound
    refine ⟨hI.locked.seeded, hI.locked.inactive, ?_⟩
    intro p hp hp'
    rcases List.mem_cons.mp hp with rfl | hold
    · exact absurd hp' hrole
    · exact hI.locked.expired p hold hp'
  | savePassword id passwordHash => exact hI.locked.savePassword id passwordHash
  | _ => exact hI.locked.of_same rfl rfl le_rfl

theorem LockedOutSeen.step (hI : LockedOutSeen s log)
    (hmay : (requests i).May setting (own i log) op) :
    LockedOutSeen (execAccess op s).2 (⟨i, op, (execAccess op s).1⟩ :: log) := by
  refine ⟨hI.locked_exec hmay, ?_, ?_, ?_⟩
  · intro j hmem
    rcases mem_own_exec hmem with ⟨-, rfl, hreply⟩ | hold
    · obtain ⟨user, huser, hrole⟩ := hI.locked.seeded
      have hnone : ∀ user ∈ s.accounts.users, ¬user.role = .administrator := by
        have hzero : s.accounts.users.countP (fun user => user.role = .administrator) = 0 := hreply
        simpa [List.countP_eq_zero] using hzero
      exact hnone user huser hrole
    · exact hI.counted j hold
  · intro j email id user hmem
    rcases mem_own_exec hmem with ⟨-, rfl, hreply⟩ | hold
    · obtain ⟨hactive, huser⟩ := findActive_some hreply
      intro hrole
      rw [hI.locked.inactive user (List.mem_of_getElem? huser) hrole] at hactive
      cases hactive
    · exact hI.found j email id user hold
  · intro j token payload hmem
    rcases mem_own_exec hmem with ⟨-, rfl, hreply⟩ | hold
    · intro hrole
      obtain ⟨p, hp, -, rfl, hexp⟩ := AccessToken.verify_cms hreply (by rw [hrole]; decide)
      exact absurd hexp (not_lt.mpr (hI.locked.expired p hp (CmsRole.text_inj hrole)))
    · exact hI.verified j token payload hold

end Step

section Run
variable {setting : Setting} {requests : ℕ → AccessRequest}

end Run

section Example

end Example
end StockMarket.Cms
