/-
Accounts that hold coins of one kind.

Main result: `balance_send`.
-/
import Gonka.Lib.OrdMap

namespace Bank

variable {α : Type*} [LinearOrder α]

/-- What the account holds. -/
def balance (b : OrdMap α ℕ) (a : α) : ℕ := (b.get? a).getD 0

/-- Take from the source, then give to the destination. -/
def send (src dst : α) (n : ℕ) (b : OrdMap α ℕ) : Option (OrdMap α ℕ) :=
  if n ≤ balance b src then
    let taken := b.insert src (balance b src - n)
    some (taken.insert dst (balance taken dst + n))
  else none

theorem balance_insert (b : OrdMap α ℕ) (a a' : α) (n : ℕ) :
    balance (b.insert a n) a' = if a' = a then n else balance b a' := by
  unfold balance
  rw [OrdMap.get?_insert]
  split <;> rfl

theorem send_isSome_iff {src dst : α} {n : ℕ} {b : OrdMap α ℕ} :
    (send src dst n b).isSome ↔ n ≤ balance b src := by
  unfold send
  split <;> simp_all

/-- **The balances after a transfer.** -/
theorem balance_send {src dst : α} {n : ℕ} {b b' : OrdMap α ℕ} (h : send src dst n b = some b')
    (a : α) : balance b' a + (if a = src then n else 0) = balance b a + (if a = dst then n else 0) := by
  unfold send at h
  split at h
  · next hle =>
    obtain rfl := Option.some.inj h
    simp only [balance_insert]
    by_cases hs : a = src <;> by_cases hd : a = dst <;> by_cases hsd : dst = src <;>
      simp_all
  · nomatch h

end Bank
