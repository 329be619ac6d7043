import Mathlib.Logic.Function.Iterate
import Mathlib.Order.WellFounded

/-!
# Loops whose body can fail

A loop is a function `step : σ → Except ε σ` that is applied again and again; an
error stops it for good.

- `Loop.iterate`: exactly `n` rounds.
- `Loop.Leads`: some number of rounds leads from one state to another; it composes
  (`Leads.trans`, `Leads.head`).
- `Loop.iterate_simulates`: the rule for following another machine.
- `Loop.leads_of_measure`: the rule for total correctness. An invariant under which
  the body neither fails nor keeps a well-founded measure from falling leads to the
  end of the loop.
-/

namespace Loop

variable {σ ε : Type} (step : σ → Except ε σ)

/-- `n` rounds. -/
def iterate : Nat → σ → Except ε σ
  | 0, s => .ok s
  | n + 1, s => do
    let s ← step s
    iterate n s

/-- Some number of rounds leads from `s` to `s'`. -/
def Leads (s s' : σ) : Prop := ∃ n, iterate step n s = .ok s'

variable {step} {s s' s₁ s₂ s₃ : σ}

theorem iterate_succ (h : step s = .ok s') : iterate step (n + 1) s = iterate step n s' := by
  show (do let s ← step s; iterate step n s) = _
  rw [h]
  rfl

theorem iterate_succ_inv (h : iterate step (n + 1) s = .ok s') :
    ∃ s₁, step s = .ok s₁ ∧ iterate step n s₁ = .ok s' := by
  change (do let s ← step s; iterate step n s) = _ at h
  cases hs : step s with
  | error e =>
    rw [hs] at h
    cases h
  | ok s₁ =>
    rw [hs] at h
    exact ⟨s₁, rfl, h⟩

theorem Leads.refl (s : σ) : Leads step s s := ⟨0, rfl⟩

theorem Leads.head (h : step s₁ = .ok s₂) (h' : Leads step s₂ s₃) : Leads step s₁ s₃ := by
  obtain ⟨n, hn⟩ := h'
  exact ⟨n + 1, by rw [iterate_succ h, hn]⟩

/-- The rounds of a run, one at a time. -/
theorem Leads.induction {P : σ → Prop} (hrefl : P s₃)
    (hhead : ∀ {s₁ s₂}, step s₁ = .ok s₂ → Leads step s₂ s₃ → P s₂ → P s₁)
    (h : Leads step s₁ s₃) : P s₁ := by
  obtain ⟨n, hn⟩ := h
  induction n generalizing s₁ with
  | zero =>
    cases hn
    exact hrefl
  | succ n ih =>
    obtain ⟨s₂, hs, hrest⟩ := iterate_succ_inv hn
    exact hhead hs ⟨n, hrest⟩ (ih hrest)

theorem Leads.trans (h : Leads step s₁ s₂) (h' : Leads step s₂ s₃) : Leads step s₁ s₃ := by
  refine Leads.induction (P := fun s => Leads step s s₃) h' ?_ h
  intro s₁ s₂ hstep _ ih
  exact ih.head hstep

/-- Simulation: if every good round is matched by at most one step of `next`, so is every
run through good states by some number of them. -/
theorem iterate_simulates {τ : Type} {R : σ → τ → Prop} {next : τ → τ} {good : σ → Prop}
    (hstep : ∀ {s s' c}, R s c → good s → step s = .ok s' → R s' c ∨ R s' (next c)) :
    ∀ (n : Nat) {s s' : σ} {c : τ}, R s c → (∀ k s₁, iterate step k s = .ok s₁ → good s₁) →
      iterate step n s = .ok s' → ∃ k, R s' (next^[k] c)
  | 0, _, _, _, h, _, hrun => by
    cases hrun
    exact ⟨0, h⟩
  | n + 1, s, s', c, h, hgood, hrun => by
    obtain ⟨s₁, hs, hrest⟩ := iterate_succ_inv hrun
    have hgood₁ : ∀ k s₂, iterate step k s₁ = .ok s₂ → good s₂ := fun k s₂ hk =>
      hgood (k + 1) s₂ (by rw [iterate_succ hs, hk])
    rcases hstep h (hgood 0 s rfl) hs with h₁ | h₁
    · exact iterate_simulates hstep n h₁ hgood₁ hrest
    · obtain ⟨k, hk⟩ := iterate_simulates hstep n h₁ hgood₁ hrest
      exact ⟨k + 1, hk⟩

/-- Total correctness: while the loop is not done, the body succeeds, keeps the
invariant and makes the measure smaller. -/
theorem leads_of_measure {α : Type} {r : α → α → Prop} (hr : WellFounded r) (μ : σ → α)
    (Inv done : σ → Prop)
    (hstep : ∀ s, Inv s → ¬ done s → ∃ s', step s = .ok s' ∧ Inv s' ∧ (done s' ∨ r (μ s') (μ s)))
    (s : σ) (hs : Inv s) : ∃ s', Leads step s s' ∧ Inv s' ∧ done s' := by
  induction hm : μ s using hr.induction generalizing s with
  | _ m ih =>
    by_cases hdone : done s
    · exact ⟨s, Leads.refl s, hs, hdone⟩
    · obtain ⟨s₁, heq, hs₁, hless⟩ := hstep s hs hdone
      rcases hless with hdone₁ | hless
      · exact ⟨s₁, (Leads.refl s₁).head heq, hs₁, hdone₁⟩
      · obtain ⟨s', hleads, hs', hdone'⟩ := ih (μ s₁) (hm ▸ hless) s₁ hs₁ rfl
        exact ⟨s', hleads.head heq, hs', hdone'⟩

end Loop
