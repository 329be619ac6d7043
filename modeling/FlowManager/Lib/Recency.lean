import Mathlib.Data.List.AList
import Mathlib.Data.List.Dedup

/-!
# Association lists in the order of their use

An association list keeps the entry that was used last in front: `AList.insert` puts an entry
there, whether its key is new or not. A bounded one forgets what is at the back.

- `Recency.trim`, `Recency.use`: forget all but the first entries; use an entry and forget.
- `Recency.lookup_trim`, `Recency.lookup_use_self`, `Recency.lookup_use_ne`: what is found.
- `Recent`: keys in the order of their last use in a history.
-/

universe u v

/-- Entries by key, the one used last in front -/
abbrev Recency (K : Type u) (α : Type v) := AList fun _ : K => α

namespace Recency

variable {K : Type u} {α : Type v}

/-- The first `n` entries -/
def trim (n : Nat) (s : Recency K α) : Recency K α :=
  ⟨s.entries.take n, s.nodupKeys.sublist (List.take_sublist n s.entries)⟩

theorem trim_eq {s : Recency K α} (h : s.keys.length ≤ n) : s.trim n = s := by
  refine AList.ext (List.take_of_length_le ?_)
  rwa [AList.keys, List.keys, List.length_map] at h

variable [DecidableEq K] {k k' : K} {a : α} {n : Nat} {s : Recency K α}

/-- What is found in the front part is found in the whole. -/
theorem lookup_trim (h : (s.trim n).lookup k = some a) : s.lookup k = some a := by
  rw [← Option.mem_def, AList.mem_lookup_iff] at h ⊢
  exact List.mem_of_mem_take h

/-- Erasing takes out the entry of the key. -/
theorem entries_erase (k : K) (s : Recency K α) :
    (s.erase k).entries = s.entries.filter (·.1 ≠ k) := by
  obtain ⟨l, hkeys⟩ := s
  show l.kerase k = _
  induction l with
  | nil => rfl
  | cons x rest ih =>
    obtain ⟨hx, hrest⟩ := List.nodupKeys_cons.mp hkeys
    by_cases hk : k = x.1
    · rw [List.kerase_cons_eq hk, List.filter_cons_of_neg (by simpa using hk.symm)]
      refine (List.filter_eq_self.mpr fun y hy => ?_).symm
      rw [hk, decide_eq_true_eq]
      exact fun heq => hx (heq ▸ List.mem_keys_of_mem hy)
    · rw [List.kerase_cons_ne hk, ih hrest,
        List.filter_cons_of_pos (by simpa using fun heq : x.1 = k => hk heq.symm)]

theorem entries_insert (k : K) (a : α) (s : Recency K α) :
    (s.insert k a).entries = ⟨k, a⟩ :: s.entries.filter (·.1 ≠ k) := by
  rw [← entries_erase]
  exact AList.entries_insert

/-- Use an entry, and forget all but the first `n`. -/
def use (n : Nat) (k : K) (a : α) (s : Recency K α) : Recency K α :=
  trim n (s.insert k a)

theorem lookup_use_self (h : 0 < n) : (use n k a s).lookup k = some a := by
  rw [← Option.mem_def, AList.mem_lookup_iff]
  show _ ∈ (List.kinsert k a s.entries).take n
  cases n with
  | zero => exact absurd h (Nat.lt_irrefl 0)
  | succ n => exact List.mem_cons_self

theorem lookup_use_ne (hne : k' ≠ k) (h : (use n k a s).lookup k' = some b) :
    s.lookup k' = some b := by
  have hall := lookup_trim h
  rwa [AList.lookup_insert_ne hne] at hall

end Recency

/-! ## Keys by their last use -/

section Recent

variable {K : Type u} [DecidableEq K] {k : K} {uses l l' : List K}

/-- The keys of `l` stand in the order of their last use, the latest one in front. -/
def Recent (uses l : List K) : Prop := l.reverse.Sublist uses.dedup

theorem Recent.sublist (h : Recent uses l) (hl : l'.Sublist l) : Recent uses l' :=
  hl.reverse.trans h

/-- A use takes the key from its place to the end. -/
theorem dedup_concat (uses : List K) (k : K) :
    (uses ++ [k]).dedup = uses.dedup.filter (· ≠ k) ++ [k] := by
  induction uses with
  | nil => rfl
  | cons x rest ih =>
    rw [List.cons_append]
    by_cases hx : x ∈ rest
    · rw [List.dedup_cons_of_mem (List.mem_append_left _ hx), ih, List.dedup_cons_of_mem hx]
    · rw [List.dedup_cons_of_notMem hx]
      by_cases hk : x = k
      · subst hk
        rw [List.dedup_cons_of_mem (List.mem_append_right _ List.mem_cons_self), ih,
          List.filter_cons_of_neg (by simp)]
      · rw [List.dedup_cons_of_notMem (by simp [hx, hk]), ih,
          List.filter_cons_of_pos (by simpa using hk), List.cons_append]

/-- The key that is used goes to the front. -/
theorem Recent.use (h : Recent uses l) (k : K) :
    Recent (uses ++ [k]) (k :: l.filter (· ≠ k)) := by
  unfold Recent
  rw [dedup_concat, List.reverse_cons, ← List.filter_reverse]
  exact (h.filter _).append (List.Sublist.refl _)

end Recent
