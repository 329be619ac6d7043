import Mathlib.Algebra.Order.BigOperators.Group.Finset
import Mathlib.Data.Nat.Basic

/-!
# Cursors in a numbered forest

Nodes are numbers, and a parent has a smaller number than its children. A cursor stands
on a node and has, at every node of the path from there to the root, some number of
steps left. When it moves depth first, a step at a node pays for any number of steps
(below a bound `B`) in a new child.

- `Forest.work`: the steps left on the path, those of node `n` at `cost n` each.
- `Forest.work_child`, `Forest.work_congr`: the path grows by its last node only.
- `Forest.weight`, `Forest.mul_weight_lt`: powers of `B` as weights make one step at a
  node worth more than everything a child can have left.
-/

namespace Forest

variable (parent : Nat → Option Nat)

/-- The cost of the steps left on the path from `n` to the root. -/
def work (left cost : Nat → Nat) (n : Nat) : Nat :=
  left n * cost n +
    match parent n with
    | some p => if p < n then work left cost p else 0
    | none => 0
termination_by n

variable {parent} {left left' cost : Nat → Nat} {n p : Nat}

theorem work_child (hparent : parent n = some p) (hlt : p < n) :
    work parent left cost n = left n * cost n + work parent left cost p := by
  rw [work, hparent]
  simp only [if_pos hlt]

/-- Only the nodes up to `n` matter. -/
theorem work_congr (h : ∀ m, m ≤ n → left' m = left m) :
    work parent left' cost n = work parent left cost n := by
  induction n using Nat.strong_induction_on with
  | _ n ih =>
    rw [work, work, h n (le_refl n)]
    cases hparent : parent n with
    | none => rfl
    | some p =>
      dsimp only
      by_cases hlt : p < n
      · rw [if_pos hlt, if_pos hlt, ih p hlt fun m hm => h m (by omega)]
      · rw [if_neg hlt, if_neg hlt]

/-- A step at the cursor's own node. -/
theorem work_advance (hn : left n = left' n + 1) (h : ∀ m, m < n → left' m = left m) :
    work parent left cost n = work parent left' cost n + cost n := by
  rw [work, work, hn, Nat.add_mul, Nat.one_mul]
  cases hparent : parent n with
  | none =>
    dsimp only
    omega
  | some p =>
    dsimp only
    by_cases hlt : p < n
    · rw [if_pos hlt, if_pos hlt, work_congr fun m hm => h m (by omega)]
      omega
    · rw [if_neg hlt, if_neg hlt]
      omega

/-- The weight of node `n` among `N` nodes. -/
def weight (B N n : Nat) : Nat := B ^ (N - n)

theorem weight_pos (hB : 0 < B) (N n : Nat) : 0 < weight B N n :=
  Nat.pow_pos hB

/-- Fewer than `B` steps at a child are worth less than one at an older node. -/
theorem mul_weight_lt (hk : k < B) (hnc : n < c) (hc : c < N) :
    k * weight B N c < weight B N n := by
  have hB : 0 < B := Nat.lt_of_le_of_lt (Nat.zero_le k) hk
  have hle : B ^ (N - c) * B ≤ B ^ (N - n) := by
    rw [← Nat.pow_succ]
    exact Nat.pow_le_pow_right hB (by omega)
  calc k * B ^ (N - c) < B * B ^ (N - c) := Nat.mul_lt_mul_of_pos_right hk (Nat.pow_pos hB)
    _ = B ^ (N - c) * B := Nat.mul_comm _ _
    _ ≤ B ^ (N - n) := hle

end Forest
