import Mathlib.Data.List.Nodup
import Mathlib.Logic.Function.Basic

/-!
# Channels without a buffer

A send on a channel without a buffer lasts until somebody takes the value. So it is an offer
that stands for a while: it is made, and then it is taken by a receiver or withdrawn by its
sender. Channels and offers are numbered in one row, and no number is given twice.

- `Channels`: the channels of a memory, with the offers that stand.
- `make`, `offer`, `withdraw`, `close`: what is done to them; a value is taken by withdrawing
  the first offer on its channel.
- `Allotted`: numbers that are given once, and who has which.
-/

namespace Concurrent

open Function

/-- A send that has not ended: the value `value` on the channel `chan`. -/
structure Offer (α : Type) where
  ticket : Nat
  chan : Nat
  value : α

/-- The channels of a memory. -/
structure Channels (α : Type) where
  /-- the number of the next channel or offer -/
  next : Nat
  closed : Nat → Bool
  offers : List (Offer α)
  fresh : ∀ o ∈ offers, o.ticket < next
  nodup : (offers.map Offer.ticket).Nodup

namespace Channels

variable {α : Type}

/-- No channel has been made. -/
def empty : Channels α where
  next := 0
  closed _ := false
  offers := []
  fresh := nofun
  nodup := List.nodup_nil

/-- A channel is made, and it is open; its number is the old `next`. -/
def make (c : Channels α) : Channels α where
  next := c.next + 1
  closed := update c.closed c.next false
  offers := c.offers
  fresh o ho := Nat.lt_succ_of_lt (c.fresh o ho)
  nodup := c.nodup

/-- A send begins; its number is the old `next`. -/
def offer (c : Channels α) (ch : Nat) (v : α) : Channels α where
  next := c.next + 1
  closed := c.closed
  offers := c.offers ++ [⟨c.next, ch, v⟩]
  fresh o ho := by
    rcases List.mem_append.mp ho with ho | ho
    · exact Nat.lt_succ_of_lt (c.fresh o ho)
    · rw [List.mem_singleton.mp ho]
      exact Nat.lt_succ_self _
  nodup := by
    rw [List.map_append, List.nodup_append]
    refine ⟨c.nodup, List.nodup_singleton _, ?_⟩
    intro tk htk tk' htk'
    obtain ⟨o, ho, rfl⟩ := List.mem_map.mp htk
    rw [List.mem_singleton.mp htk']
    exact Nat.ne_of_lt (c.fresh o ho)

/-- The offer with the number `ticket` does not stand any more. -/
def withdraw (c : Channels α) (ticket : Nat) : Channels α where
  next := c.next
  closed := c.closed
  offers := c.offers.filter fun o => decide (o.ticket ≠ ticket)
  fresh o ho := c.fresh o (List.mem_filter.mp ho).1
  nodup := c.nodup.sublist (List.filter_sublist.map _)

/-- A channel is closed. -/
def close (c : Channels α) (ch : Nat) : Channels α where
  next := c.next
  closed := update c.closed ch true
  offers := c.offers
  fresh := c.fresh
  nodup := c.nodup

/-- The offer that a receiver on the channel takes -/
def first (c : Channels α) (ch : Nat) : Option (Offer α) :=
  c.offers.find? fun o => decide (o.chan = ch)

/-- The offer with the number `ticket`, if it stands. -/
def standing (c : Channels α) (ticket : Nat) : Option (Offer α) :=
  c.offers.find? fun o => decide (o.ticket = ticket)

theorem make_closed_self (c : Channels α) : c.make.closed c.next = false :=
  update_self ..

theorem make_closed_of_lt {c : Channels α} (h : ch < c.next) :
    c.make.closed ch = c.closed ch := update_of_ne (Nat.ne_of_lt h) ..

theorem mem_of_first {c : Channels α} (h : c.first ch = some o) :
    o ∈ c.offers ∧ o.chan = ch := by
  have hchan := List.find?_some h
  exact ⟨List.mem_of_find?_eq_some h, of_decide_eq_true hchan⟩

theorem mem_of_standing {c : Channels α}
    (h : c.standing ticket = some o) : o ∈ c.offers ∧ o.ticket = ticket := by
  have hticket := List.find?_some h
  exact ⟨List.mem_of_find?_eq_some h, of_decide_eq_true hticket⟩

theorem ne_of_not_standing {c : Channels α} (h : c.standing ticket = none)
    (ho : o ∈ c.offers) : o.ticket ≠ ticket :=
  of_decide_eq_true (by simpa using List.find?_eq_none.mp h o ho)

theorem mem_withdraw {c : Channels α} :
    o ∈ (c.withdraw ticket).offers ↔ o ∈ c.offers ∧ o.ticket ≠ ticket := by
  simp [withdraw]

theorem length_withdraw_lt {c : Channels α} (h : o ∈ c.offers) :
    (c.withdraw o.ticket).offers.length < c.offers.length :=
  List.length_filter_lt_length_iff_exists.mpr ⟨o, h, by simp⟩

end Channels

/-- Each number is had by one owner at most, and those from `next` on by nobody. -/
structure Allotted {ι : Type} (owned : ι → Option Nat) (next : Nat) : Prop where
  lt : ∀ {i v}, owned i = some v → v < next
  inj : ∀ {i j v}, owned i = some v → owned j = some v → i = j

namespace Allotted

variable {ι : Type} {owned owned' : ι → Option Nat} {next next' : Nat}

/-- Numbers are given back, or kept. -/
theorem mono (h : Allotted owned next) (howned : ∀ i v, owned' i = some v → owned i = some v)
    (hnext : next ≤ next') : Allotted owned' next' where
  lt hi := Nat.lt_of_lt_of_le (h.lt (howned _ _ hi)) hnext
  inj hi hj := h.inj (howned _ _ hi) (howned _ _ hj)

variable [DecidableEq ι]

theorem release (h : Allotted owned next) (hv : v = none ∨ v = owned i) (hnext : next ≤ next') :
    Allotted (update owned i v) next' := by
  refine h.mono ?_ hnext
  intro j u hj
  by_cases hji : j = i
  · subst hji
    rw [update_self] at hj
    rcases hv with rfl | rfl
    · cases hj
    · exact hj
  · rwa [update_of_ne hji] at hj

/-- The next number is given to `i`. -/
theorem give (h : Allotted owned next) (i : ι) :
    Allotted (update owned i (some next)) (next + 1) := by
  have hother : ∀ {j v}, j ≠ i → update owned i (some next) j = some v →
      owned j = some v := by
    intro j v hji hj
    rwa [update_of_ne hji] at hj
  have hself : ∀ {v}, update owned i (some next) i = some v → v = next := by
    intro v hv
    rw [update_self] at hv
    exact (Option.some.inj hv).symm
  constructor
  · intro j v hj
    by_cases hji : j = i
    · subst hji
      rw [hself hj]
      exact Nat.lt_succ_self _
    · exact Nat.lt_succ_of_lt (h.lt (hother hji hj))
  · intro j k v hj hk
    by_cases hji : j = i <;> by_cases hki : k = i
    · rw [hji, hki]
    · subst hji
      -- nobody had the next number
      exact absurd (h.lt (hother hki hk)) (by rw [hself hj]; exact Nat.lt_irrefl _)
    · subst hki
      exact absurd (h.lt (hother hji hj)) (by rw [hself hk]; exact Nat.lt_irrefl _)
    · exact h.inj (hother hji hj) (hother hki hk)

end Allotted

end Concurrent
