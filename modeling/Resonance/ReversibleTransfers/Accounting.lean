import Resonance.ReversibleTransfers.Steps

/-!
The books of the reversible-transfers pallet.

An account's pending index counts the instances of its pending entries, and its
`ScheduledTransfer` hold is what those instances will move. Both are sums over
the entries of something proportional to the count, and scheduling or settling
one instance changes such a sum by one share.
-/
namespace Resonance.ReversibleTransfers
open Storage StateMachine StorageMap
variable {A H N : Type} [DecidableEq A] [DecidableEq H] [DecidableEq N]

/-- The number of instances of a transfer that are pending. -/
def countOf (m : StorageMap H (PendingTransfer A)) (txId : H) : ℕ :=
  weight (fun _ p => p.count) m txId

/-- What one account's share of an entry adds to a sum, `w` for each instance. -/
def share (w : ℕ → ℕ) (a : A) (_ : H) (p : PendingTransfer A) : ℕ :=
  if p.who = a then w p.amount * p.count else 0

def State.instancesOf (s : State A H N) (a : A) : ℕ :=
  total (fun _ p => if p.who = a then p.count else 0) s.pendingTransfers

def State.scheduledAmount (s : State A H N) (a : A) : ℕ :=
  total (fun _ p => if p.who = a then p.amount * p.count else 0) s.pendingTransfers

section
variable {m : StorageMap H (PendingTransfer A)} {txId : H} {pending : PendingTransfer A}
  {w : ℕ → ℕ}

omit [DecidableEq A] in
theorem countOf_of_lookup (found : m.lookup txId = some pending) :
    countOf m txId = pending.count :=
  weight_of_lookup found

omit [DecidableEq A] in
theorem countOf_insert (t : H) :
    countOf (m.insert txId pending) t = if t = txId then pending.count else countOf m t := by
  simp only [countOf, weight]
  rw [lookup_insert_eq_ite]
  by_cases h : t = txId
  · rw [if_pos h, if_pos h]
  · rw [if_neg h, if_neg h]

omit [DecidableEq A] in
theorem countOf_withoutInstance (found : m.lookup txId = some pending)
    (positive : 1 ≤ pending.count) (t : H) :
    countOf (withoutInstance m txId pending) t + (if t = txId then 1 else 0) = countOf m t := by
  have count := countOf_of_lookup found
  simp only [withoutInstance]
  by_cases h : t = txId
  · subst h
    rw [if_pos rfl, count]
    split
    · rw [countOf_insert, if_pos rfl]
      dsimp only
      omega
    · rw [countOf, weight_of_lookup_none (AList.lookup_erase _ _)]
      omega
  · rw [if_neg h]
    split
    · rw [countOf_insert, if_neg h, Nat.add_zero]
    · simp only [countOf, weight]
      rw [AList.lookup_erase_ne h, Nat.add_zero]

theorem weight_share {who a : A} {amount : ℕ}
    (same : ∀ p, m.lookup txId = some p → p.who = who ∧ p.amount = amount) :
    weight (share w a) m txId = if who = a then w amount * countOf m txId else 0 := by
  simp only [countOf, weight]
  cases h : m.lookup txId with
  | none => simp
  | some p =>
      obtain ⟨rfl, rfl⟩ := same p h
      rfl

theorem total_share_insert {a : A}
    (same : ∀ p, m.lookup txId = some p → p.who = pending.who ∧ p.amount = pending.amount)
    (count : pending.count = countOf m txId + 1) :
    total (share w a) (m.insert txId pending) =
      total (share w a) m + if pending.who = a then w pending.amount else 0 := by
  have sum := total_insert (share w a) m txId pending
  rw [weight_share same] at sum
  have new : share w a txId pending = if pending.who = a then
      w pending.amount * countOf m txId + w pending.amount else 0 := by
    rw [share, count, Nat.mul_succ]
  rw [new] at sum
  by_cases owner : pending.who = a
  · simp only [owner, if_true] at sum ⊢
    omega
  · simp only [owner, if_false] at sum ⊢
    omega

theorem total_share_withoutInstance {a : A} (found : m.lookup txId = some pending)
    (positive : 1 ≤ pending.count) :
    total (share w a) (withoutInstance m txId pending) +
        (if pending.who = a then w pending.amount else 0) = total (share w a) m := by
  have whole : share w a txId pending =
      share w a txId { pending with count := pending.count - 1 } +
        if pending.who = a then w pending.amount else 0 := by
    simp only [share]
    split
    · rw [← Nat.mul_succ, Nat.succ_eq_add_one, Nat.sub_add_cancel positive]
    · rfl
  have weight := weight_of_lookup (f := share w a) found
  simp only [withoutInstance]
  split
  · have sum := total_insert (share w a) m txId { pending with count := pending.count - 1 }
    omega
  · have sum := total_erase (share w a) m txId
    have last : pending.count - 1 = 0 := by omega
    have none : share w a txId { pending with count := pending.count - 1 } = 0 := by
      simp [share, last]
    omega

end

/-- An entry is kept under the hash of its own transfer and counts at least one. -/
structure Entry (c : Config A H N) (txId : H) (pending : PendingTransfer A) : Prop where
  key : txId = c.hashOf pending.who pending.call
  transfer : ∃ dest, pending.call = .transferKeepAlive dest pending.amount
  counted : 1 ≤ pending.count

/-- The books balance. -/
structure Accounting (c : Config A H N) (s : State A H N) : Prop where
  valid : c.laws.Valid s.balances
  entries : ∀ txId pending, s.pendingTransfers.lookup txId = some pending →
    Entry c txId pending
  index : ∀ a, s.accountPendingIndex a = total (share (fun _ => 1) a) s.pendingTransfers
  bounded : ∀ a, s.accountPendingIndex a ≤ c.maxPendingPerAccount
  held : ∀ a, s.balances.balanceOnHold .scheduledTransfer a =
    total (share id a) s.pendingTransfers

variable {c : Config A H N} {s s' : State A H N} {l : Label A H N}

namespace Accounting

theorem genesis {initial : List (A × ℕ)} {b : BalancesState A} (valid : c.laws.Valid b)
    (unheld : ∀ a, b.balanceOnHold .scheduledTransfer a = 0) :
    Accounting c (genesis c initial b) where
  valid := valid
  entries _ _ h := by cases h
  index _ := rfl
  bounded _ := Nat.zero_le _
  held a := unheld a

section
variable {who : A} {dest : MultiAddress A} {amount : ℕ}

/-- An entry found under the hash of a transfer is an entry of that transfer. -/
theorem same_transfer (inv : Accounting c s) {p : PendingTransfer A}
    (found : s.pendingTransfers.lookup (c.hashOf who (.transferKeepAlive dest amount)) = some p) :
    p.who = who ∧ p.amount = amount := by
  obtain ⟨key, ⟨dest', transfer⟩, -⟩ := inv.entries _ _ found
  obtain ⟨rfl, call⟩ := c.hashOf_injective key
  cases call.trans transfer
  exact ⟨rfl, rfl⟩

theorem countOf_le_index (inv : Accounting c s) :
    countOf s.pendingTransfers (c.hashOf who (.transferKeepAlive dest amount)) ≤
      s.accountPendingIndex who := by
  have weight := weight_le_total (share (fun _ => 1) who) s.pendingTransfers
    (c.hashOf who (.transferKeepAlive dest amount))
  rw [weight_share fun p found => inv.same_transfer found, if_pos rfl, Nat.one_mul] at weight
  rw [inv.index]
  exact weight

/-- With room for one more transfer no counter saturates. -/
theorem nextCount_eq (inv : Accounting c s)
    (below : s.accountPendingIndex who < c.maxPendingPerAccount) :
    s.nextCount (c.hashOf who (.transferKeepAlive dest amount)) =
      countOf s.pendingTransfers (c.hashOf who (.transferKeepAlive dest amount)) + 1 := by
  have le : countOf s.pendingTransfers (c.hashOf who (.transferKeepAlive dest amount)) ≤
    s.accountPendingIndex who := inv.countOf_le_index
  have max := c.maxPendingPerAccount_le
  simp only [State.nextCount]
  cases h : s.pendingTransfers.lookup (c.hashOf who (.transferKeepAlive dest amount)) with
  | none =>
      rw [countOf, weight_of_lookup_none h]
  | some p =>
      rw [countOf_of_lookup h] at le ⊢
      dsimp only
      omega

theorem total_scheduled (inv : Accounting c s)
    (below : s.accountPendingIndex who < c.maxPendingPerAccount) (w : ℕ → ℕ) (a : A)
    {delay : ℕ} {b : BalancesState A} :
    total (share w a)
        (s.scheduled c who (.transferKeepAlive dest amount) amount delay b).pendingTransfers =
      total (share w a) s.pendingTransfers + if who = a then w amount else 0 :=
  total_share_insert (fun _ found => inv.same_transfer found) (inv.nextCount_eq below)

theorem scheduled (inv : Accounting c s) {delay : ℕ} {b : BalancesState A}
    (below : s.accountPendingIndex who < c.maxPendingPerAccount)
    (held : exec (c.fungible.hold .scheduledTransfer who amount) s.balances = (.ok ⟨⟩, b)) :
    Accounting c (s.scheduled c who (.transferKeepAlive dest amount) amount delay b) := by
  obtain ⟨valid, holds⟩ := c.laws.hold_moves inv.valid held
  have max := c.maxPendingPerAccount_le
  refine ⟨valid, ?_, ?_, ?_, ?_⟩
  · intro txId pending found
    dsimp only [State.scheduled] at found
    rw [lookup_insert_eq_ite] at found
    split at found
    · cases found
      refine ⟨by assumption, ⟨dest, rfl⟩, ?_⟩
      dsimp only
      rw [inv.nextCount_eq below]
      exact Nat.le_add_left 1 _
    · exact inv.entries _ _ found
  · intro a
    rw [inv.total_scheduled below, ← inv.index]
    dsimp only [State.scheduled]
    rw [Function.update_apply]
    by_cases owner : a = who
    · subst owner
      simp only [if_true]
      omega
    · simp only [owner, Ne.symm owner, if_false, Nat.add_zero]
  · intro a
    dsimp only [State.scheduled]
    rw [Function.update_apply]
    have bounded := inv.bounded a
    split <;> omega
  · intro a
    rw [inv.total_scheduled below, ← inv.held]
    refine (holds a .scheduledTransfer).trans ?_
    simp only [and_true, id_eq, eq_comm]

end

/-- Settling one instance takes its amount out of the hold; who gets it does not
matter here. -/
theorem settled (inv : Accounting c s) {txId : H} {pending : PendingTransfer A}
    {tasks : Tasks N A (Call A H)} {b : BalancesState A} {e : Event A H}
    (found : s.pendingTransfers.lookup txId = some pending) (valid : c.laws.Valid b)
    (taken : ∀ a, b.balanceOnHold .scheduledTransfer a +
      (if a = pending.who then pending.amount else 0) =
        s.balances.balanceOnHold .scheduledTransfer a) :
    Accounting c (s.settled txId pending tasks b e) := by
  have entry := inv.entries _ _ found
  have sum (w : ℕ → ℕ) (a : A) := total_share_withoutInstance (w := w) (a := a) found entry.counted
  refine ⟨valid, ?_, ?_, ?_, ?_⟩
  · intro t p h
    dsimp only [State.settled, withoutInstance] at h
    split at h
    · rw [lookup_insert_eq_ite] at h
      split at h
      · cases h
        subst t
        refine ⟨entry.key, entry.transfer, ?_⟩
        dsimp only
        omega
      · exact inv.entries _ _ h
    · rw [lookup_erase_eq_ite] at h
      split at h
      · cases h
      · exact inv.entries _ _ h
  · intro a
    have one := sum (fun _ => 1) a
    rw [← inv.index] at one
    dsimp only [State.settled]
    rw [Function.update_apply]
    split
    next owner =>
      rw [owner] at one ⊢
      simp only [if_true] at one
      omega
    next owner =>
      simp only [Ne.symm owner, if_false] at one
      omega
  · intro a
    have bounded := inv.bounded a
    dsimp only [State.settled]
    rw [Function.update_apply]
    split
    next owner =>
      rw [owner] at bounded
      omega
    next owner => exact bounded
  · intro a
    have all := sum id a
    have left := taken a
    rw [← inv.held] at all
    dsimp only [State.settled, id_eq] at all left ⊢
    simp only [eq_comm (a := pending.who)] at all
    omega

end Accounting

omit [DecidableEq H] in
theorem Refunds.taken {caller : A} {data : ReversibleAccountData A} {pending : PendingTransfer A}
    {b b' : BalancesState A} (valid : c.laws.Valid b)
    (refund : Refunds c caller data pending b b') :
    c.laws.Valid b' ∧ b'.HoldsAdd b .scheduledTransfer pending.who pending.amount := by
  cases refund with
  | toReverser explicit moved =>
      obtain ⟨valid', holds, -⟩ := c.laws.transferOnHold_moves valid moved
      exact ⟨valid', holds⟩
  | toOwner none owner moved =>
      obtain ⟨valid', holds, -⟩ := c.laws.release_moves valid moved
      exact ⟨valid', holds⟩

omit [DecidableEq H] in
/-- Releasing the amount and then transferring it leaves every other hold as it was. -/
theorem released_and_moved {pending : PendingTransfer A} {b b₁ b₂ : BalancesState A}
    (valid : c.laws.Valid b)
    (released : exec (c.fungible.release .scheduledTransfer pending.who pending.amount) b =
      (.ok ⟨⟩, b₁))
    (moved : exec (pending.call.dispatch c.existentialDeposit c.fungible
      (.signed pending.who)) b₁ = (.ok ⟨⟩, b₂)) :
    c.laws.Valid b₂ ∧ b₂.HoldsAdd b .scheduledTransfer pending.who pending.amount := by
  obtain ⟨valid₁, holds, -⟩ := c.laws.release_moves valid released
  obtain ⟨valid₂, kept⟩ := BalancesCall.dispatch_keeps c.laws valid₁ moved
  refine ⟨valid₂, ?_⟩
  intro a r
  rw [kept a r]
  exact holds a r

omit [DecidableEq H] in
theorem taken_of_holdsAdd {who : A} {amount : ℕ} {b b' : BalancesState A}
    (holds : b'.HoldsAdd b .scheduledTransfer who amount) (a : A) :
    b'.balanceOnHold .scheduledTransfer a + (if a = who then amount else 0) =
      b.balanceOnHold .scheduledTransfer a := by
  have := holds a .scheduledTransfer
  simp only [and_true] at this
  exact this.symm

theorem accounting_step (inv : Accounting c s) (e : Effect c s l s') : Accounting c s' := by
  cases e with
  | refused failed => exact inv
  | reversibilitySet fresh long =>
      exact ⟨inv.valid, inv.entries, inv.index, inv.bounded, inv.held⟩
  | scheduled ok reversible below free held => exact inv.scheduled below held
  | cancelled found reversible live refund =>
      obtain ⟨valid, holds⟩ := refund.taken inv.valid
      exact inv.settled found valid (taken_of_holdsAdd holds)
  | executed live call due ok found released moved =>
      obtain ⟨valid, holds⟩ := released_and_moved inv.valid released moved
      exact inv.settled found valid (taken_of_holdsAdd holds)
  | taskFailed live call due failed =>
      exact ⟨inv.valid, inv.entries, inv.index, inv.bounded, inv.held⟩
  | nextBlock below => exact ⟨inv.valid, inv.entries, inv.index, inv.bounded, inv.held⟩
  | balances valid same =>
      refine ⟨valid, inv.entries, inv.index, inv.bounded, ?_⟩
      intro a
      rw [← inv.held]
      exact same a

theorem reachable_accounting (h : Reachable (chain c) s) : Accounting c s := by
  refine h.invariant ?_ fun s l s' reach inv step =>
    accounting_step inv (reachable_effect reach step)
  intro s ⟨initial, b, valid, unheld, start⟩
  subst start
  exact .genesis valid unheld

/-- The pending index of an account is the number of its pending instances, within
the limit, no entry is empty, and the account's hold is what those instances are
worth. -/
theorem accounting_of_reachable (h : Reachable (chain c) s) (a : A) :
    s.accountPendingIndex a = s.instancesOf a ∧
      s.accountPendingIndex a ≤ c.maxPendingPerAccount ∧
      (∀ txId pending, s.pendingTransfers.lookup txId = some pending → 1 ≤ pending.count) ∧
      s.balances.balanceOnHold .scheduledTransfer a = s.scheduledAmount a := by
  have inv := reachable_accounting h
  refine ⟨?_, inv.bounded a, fun txId p found => (inv.entries txId p found).counted, inv.held a⟩
  rw [inv.index]
  unfold share State.instancesOf
  simp only [Nat.one_mul]

open Mock in
theorem accounting_of_reachable_once :
    (schedule 2 500000000 (start 2)).accountPendingIndex 1 = 1 ∧
      (schedule 2 500000000 (start 2)).balances.balanceOnHold .scheduledTransfer 1 = 500000000 := by
  obtain ⟨index, -, -, held⟩ :=
    accounting_of_reachable ⟨_, run_schedule (run_start 2) 2 500000000⟩ 1
  exact ⟨index.trans rfl, held.trans rfl⟩

end Resonance.ReversibleTransfers
