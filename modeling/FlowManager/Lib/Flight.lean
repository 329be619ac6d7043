import Mathlib.Logic.Function.Basic

/-!
# Calls that share their work

A group of calls with keys, as the package `singleflight` has it: a call finds the flight of its
key under way and waits for its result, or starts one, does the work and ends it. Forgetting a key
makes later calls start a flight of their own; the one under way goes on for those that wait.

- `enter`, `fetch`, `finish`, `forget`: what a call does, under the lock of the group.
- `Aboard`: a flight is of a key, and its result satisfies what was asked for.
- `Aboard.mono`: it stays so if results only come from work that is good enough.
-/

namespace Flight

open Function

/-- A `call` of the group -/
structure Work (V : Type) where
  val : Option V
  done : Bool
  dups : Nat

/-- A group. The flights are numbered; `key` is kept beside them. -/
structure Group (K V : Type) where
  m : K → Option Nat
  work : Nat → Work V
  key : Nat → Option K
  next : Nat

namespace Group

variable {K V : Type}

def empty : Group K V := ⟨fun _ => none, fun _ => ⟨none, false, 0⟩, fun _ => none, 0⟩

variable [DecidableEq K]

/-- `Do`, up to the wait or the work: the flight, and whether it was under way -/
def enter (g : Group K V) (key : K) : (Nat × Bool) × Group K V :=
  match g.m key with
  | some c =>
    ((c, true), { g with
      work := update g.work c { g.work c with dups := (g.work c).dups + 1 } })
  | none =>
    ((g.next, false), { g with
      m := update g.m key (some g.next)
      work := update g.work g.next ⟨none, false, 0⟩
      key := update g.key g.next (some key)
      next := g.next + 1 })

/-- The work has a result. -/
def fetch (g : Group K V) (c : Nat) (v : V) : Group K V :=
  { g with work := update g.work c { g.work c with val := some v } }

/-- The flight ends; the key is free again if nobody has forgotten it. -/
def finish (g : Group K V) (key : K) (c : Nat) : Group K V :=
  { g with
    m := if g.m key = some c then update g.m key none else g.m
    work := update g.work c { g.work c with done := true } }

/-- `Forget` -/
def forget (g : Group K V) (key : K) : Group K V :=
  { g with m := update g.m key none }

end Group

/-! ## What a flight is good for -/

variable {K V : Type} {g g' : Group K V} {key : K} {c : Nat} {P Q : V → Prop}

/-- The flight is of the key, and its result, if there is one, is good enough. -/
structure Aboard (g : Group K V) (key : K) (P : V → Prop) (c : Nat) : Prop where
  lt : c < g.next
  key_eq : g.key c = some key
  val : ∀ v, (g.work c).val = some v → P v

/-- Flights stay what they are, and new results of the key are good enough. -/
structure Serves (g g' : Group K V) (key : K) (P : V → Prop) : Prop where
  next : g.next ≤ g'.next
  key_eq : ∀ c < g.next, g'.key c = g.key c
  val : ∀ c < g.next, g.key c = some key → ∀ v, (g'.work c).val = some v →
    (g.work c).val = some v ∨ P v

theorem Aboard.mono (h : Aboard g key P c) (hserves : Serves g g' key P) : Aboard g' key P c where
  lt := Nat.lt_of_lt_of_le h.lt hserves.next
  key_eq := (hserves.key_eq c h.lt).trans h.key_eq
  val v hv := (hserves.val c h.lt h.key_eq v hv).elim (h.val v) id

theorem Aboard.imp (h : Aboard g key P c) (himp : ∀ v, P v → Q v) : Aboard g key Q c :=
  ⟨h.lt, h.key_eq, fun v hv => himp v (h.val v hv)⟩

theorem serves_refl : Serves g g key P := ⟨Nat.le_refl _, fun _ _ => rfl, fun _ _ _ _ hv => .inl hv⟩

theorem Serves.trans (h : Serves g g' key P) (h' : Serves g' g'' key P) :
    Serves g g'' key P where
  next := Nat.le_trans h.next h'.next
  key_eq c hc := (h'.key_eq c (Nat.lt_of_lt_of_le hc h.next)).trans (h.key_eq c hc)
  val c hc hkey v hv := by
    have hc' := Nat.lt_of_lt_of_le hc h.next
    rcases h'.val c hc' ((h.key_eq c hc).trans hkey) v hv with hv | hp
    · exact h.val c hc hkey v hv
    · exact .inr hp

/-- A new result: of another key, or good enough -/
theorem serves_fetch (hv : g.key c = some key → P v) : Serves g (g.fetch c v) key P := by
  refine ⟨Nat.le_refl _, fun _ _ => rfl, fun c' _ hkey v' hv' => ?_⟩
  simp only [Group.fetch] at hv'
  by_cases hc : c' = c
  · subst hc
    rw [update_self] at hv'
    cases hv'
    exact .inr (hv hkey)
  · rw [update_of_ne hc] at hv'
    exact .inl hv'

variable [DecidableEq K]

theorem serves_enter (key' : K) : Serves g (g.enter key').2 key P := by
  unfold Group.enter
  cases g.m key' with
  | some c' =>
    refine ⟨Nat.le_refl _, fun _ _ => rfl, fun c _ _ v hv => .inl ?_⟩
    dsimp only at hv
    by_cases hc : c = c'
    · subst hc
      rwa [update_self] at hv
    · rwa [update_of_ne hc] at hv
  | none =>
    refine ⟨Nat.le_succ _, fun c hc => ?_, fun c hc _ v hv => .inl ?_⟩
    · exact update_of_ne (Nat.ne_of_lt hc) ..
    · dsimp only at hv
      rwa [update_of_ne (Nat.ne_of_lt hc)] at hv

theorem serves_finish (key' : K) (c : Nat) : Serves g (g.finish key' c) key P := by
  refine ⟨Nat.le_refl _, fun _ _ => rfl, fun c' _ _ v hv => .inl ?_⟩
  simp only [Group.finish] at hv
  by_cases hc : c' = c
  · subst hc
    rwa [update_self] at hv
  · rwa [update_of_ne hc] at hv

theorem serves_forget (key' : K) : Serves g (g.forget key') key P :=
  ⟨Nat.le_refl _, fun _ _ => rfl, fun _ _ _ _ hv => .inl hv⟩

/-- Whoever enters is aboard a flight of the key. -/
theorem aboard_enter (hm : ∀ c, g.m key = some c → Aboard g key P c) :
    Aboard (g.enter key).2 key P (g.enter key).1.1 := by
  have hserves : Serves g (g.enter key).2 key P := serves_enter key
  unfold Group.enter at hserves ⊢
  cases hkey : g.m key with
  | some c =>
    rw [hkey] at hserves
    exact (hm c hkey).mono hserves
  | none =>
    refine ⟨Nat.lt_succ_self _, update_self .., fun v hv => ?_⟩
    dsimp only at hv
    rw [update_self] at hv
    cases hv

/-- The flights that can be entered, afterwards -/
theorem enter_m (h : (g.enter key').2.m key = some c) :
    g.m key = some c ∨ key = key' ∧ (g.enter key').1.1 = c := by
  unfold Group.enter at h ⊢
  cases hkey : g.m key' with
  | some c' =>
    rw [hkey] at h
    exact .inl h
  | none =>
    rw [hkey] at h
    dsimp only at h ⊢
    by_cases heq : key = key'
    · subst heq
      rw [update_self] at h
      exact .inr ⟨rfl, Option.some.inj h⟩
    · rw [update_of_ne heq] at h
      exact .inl h

theorem finish_m (h : (g.finish key' c').m key = some c) : g.m key = some c := by
  simp only [Group.finish] at h
  split at h
  · by_cases heq : key = key'
    · subst heq
      rw [update_self] at h
      cases h
    · rwa [update_of_ne heq] at h
  · exact h

/-- A flight that has ended cannot be entered. -/
theorem finish_m_ne (h : (g.finish key c').m key = some c) : c ≠ c' := by
  rintro rfl
  simp only [Group.finish] at h
  split at h
  · rw [update_self] at h
    cases h
  · exact absurd h ‹_›

theorem forget_m (h : (g.forget key').m key = some c) : key ≠ key' ∧ g.m key = some c := by
  simp only [Group.forget] at h
  by_cases heq : key = key'
  · subst heq
    rw [update_self] at h
    cases h
  · rw [update_of_ne heq] at h
    exact ⟨heq, h⟩

end Flight
