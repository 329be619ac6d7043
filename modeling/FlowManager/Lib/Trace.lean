import Mathlib.Tactic.Common

/-!
# Runs of labelled steps under a condition

A system takes labelled steps, chosen by its environment; a condition says of each step
whether the environment behaves. `Steps` carries along what the condition says of the steps
so far.

- `Steps.invariant`: steps that meet the condition keep an invariant, so runs of such steps
  do.
- `Steps.always`: an invariant that every step keeps holds whatever the condition;
  `Steps.free`: a run is also one under no condition.
- `Steps.dichotomy`: if moreover a step that does not meet the condition dooms the run, then
  every run either has met it throughout, or is doomed.
- `Noted`: steps with a history kept beside the state.
- `play`: the run that given moves lead to, if they can be made; `reaches` and
  `reaches_checked` say what is found at its end, and that it meets a condition.
-/

namespace Trace

universe u

variable {σ ε : Type}

/-- Some steps lead from `s₀` to `s`, and `ok` says that all of them meet the condition. -/
inductive Steps (step cond : σ → ε → σ → Prop) (s₀ : σ) : Prop → σ → Prop where
  | refl : Steps step cond s₀ True s₀
  | tail {ok : Prop} {s s' : σ} {a : ε} (h : Steps step cond s₀ ok s) (hstep : step s a s') :
      Steps step cond s₀ (ok ∧ cond s a s') s'

variable {step cond : σ → ε → σ → Prop} {s₀ s : σ} {ok : Prop} {Inv Doomed : σ → Prop}

section

variable (h : Steps step cond s₀ ok s)
include h

/-- A run whose steps all meet the condition keeps an invariant that such steps keep. -/
theorem Steps.invariant (hinit : Inv s₀)
    (hkeep : ∀ {s a s'}, Inv s → step s a s' → cond s a s' → Inv s') (hok : ok) : Inv s := by
  induction h with
  | refl => exact hinit
  | tail _ hstep ih => exact hkeep (ih hok.1) hstep hok.2

/-- An invariant that every step keeps. -/
theorem Steps.always (hinit : Inv s₀)
    (hkeep : ∀ {s a s'}, Inv s → step s a s' → Inv s') : Inv s := by
  induction h with
  | refl => exact hinit
  | tail _ hstep ih => exact hkeep ih hstep

/-- The condition is dropped. -/
theorem Steps.free : ∃ ok', Steps step (fun _ _ _ => True) s₀ ok' s ∧ ok' := by
  induction h with
  | refl => exact ⟨True, .refl, trivial⟩
  | tail _ hstep ih =>
    obtain ⟨ok', hsteps, hok'⟩ := ih
    exact ⟨ok' ∧ True, hsteps.tail hstep, hok', trivial⟩

/-- A run also meets a condition that follows from the one it meets and from an invariant. -/
theorem Steps.imp (Inv : σ → Prop) (cond' : σ → ε → σ → Prop) (hok : ok) (hinit : Inv s₀)
    (hkeep : ∀ {s a s'}, Inv s → step s a s' → cond s a s' → Inv s' ∧ cond' s a s') :
    ∃ ok', Steps step cond' s₀ ok' s ∧ ok' := by
  have hboth : Inv s ∧ ∃ ok', Steps step cond' s₀ ok' s ∧ ok' := by
    induction h with
    | refl => exact ⟨hinit, True, .refl, trivial⟩
    | tail _ hstep ih =>
      obtain ⟨hinv, ok', hsteps, hok'⟩ := ih hok.1
      obtain ⟨hinv', hcond'⟩ := hkeep hinv hstep hok.2
      exact ⟨hinv', _, hsteps.tail hstep, hok', hcond'⟩
  exact hboth.2

/-- A run has met the condition throughout, or it is doomed. -/
theorem Steps.dichotomy (hinit : Inv s₀)
    (hkeep : ∀ {s a s'}, Inv s → step s a s' → cond s a s' → Inv s')
    (hbreak : ∀ {s a s'}, Inv s → step s a s' → ¬ cond s a s' → Doomed s')
    (hdoomed : ∀ {s a s'}, Doomed s → step s a s' → Doomed s') :
    (ok ∧ Inv s) ∨ (¬ ok ∧ Doomed s) := by
  induction h with
  | refl => exact Or.inl ⟨trivial, hinit⟩
  | @tail ok s s' a _ hstep ih =>
    rcases ih with ⟨hok, hinv⟩ | ⟨hok, hdoom⟩
    · by_cases hcond : cond s a s'
      · exact Or.inl ⟨⟨hok, hcond⟩, hkeep hinv hstep hcond⟩
      · exact Or.inr ⟨fun hall => hcond hall.2, hbreak hinv hstep hcond⟩
    · exact Or.inr ⟨fun hall => hok hall.1, hdoomed hdoom hstep⟩

end

/-- Steps with a history `x.2` kept beside the state: `note` writes down what happens. -/
def Noted {τ : Type} (step : σ → ε → σ → Prop) (note : σ → ε → τ → τ) (x : σ × τ) (a : ε)
    (y : σ × τ) : Prop := step x.1 a y.1 ∧ y.2 = note x.1 a x.2

/-! ## Given moves -/

section Play

variable {μ : Type u} (move : σ → μ → Option σ)

/-- The moves are made in the given order. -/
def play : List μ → σ → Option σ
  | [], s => some s
  | a :: rest, s => (move s a).bind (play rest)

/-- A move that passes a check, which also looks at where it leads. -/
def checked (check : σ → μ → σ → Bool) (s : σ) (a : μ) : Option σ := (move s a).filter (check s a)

theorem play_append (xs ys : List μ) (s : σ) :
    play move (xs ++ ys) s = (play move xs s).bind (play move ys) := by
  induction xs generalizing s with
  | nil => rfl
  | cons a rest ih =>
    simp only [List.cons_append, play, Option.bind_assoc]
    exact congrArg _ (funext ih)

variable {move} {event : σ → μ → ε} {check : σ → μ → σ → Bool} {moves : List μ}

/-- A move, with what is noted down of it. -/
def noting {τ : Type} (move : σ → μ → Option σ) (event : σ → μ → ε) (note : σ → ε → τ → τ)
    (x : σ × τ) (a : μ) : Option (σ × τ) :=
  (move x.1 a).map fun s => (s, note x.1 (event x.1 a) x.2)

section

variable (hmove : ∀ s a s', move s a = some s' → step s (event s a) s')
include hmove

theorem noting_noted {τ : Type} {note : σ → ε → τ → τ} (x : σ × τ) (a : μ) (y : σ × τ)
    (h : noting move event note x a = some y) : Noted step note x (event x.1 a) y := by
  obtain ⟨s, hs, rfl⟩ := Option.map_eq_some_iff.mp h
  exact ⟨hmove _ _ _ hs, rfl⟩

/-- Moves that can be made are a run. -/
theorem play_steps (h₀ : Steps step cond s₀ ok s) (h : play move moves s = some s') :
    ∃ ok', Steps step cond s₀ ok' s' := by
  induction moves generalizing s ok with
  | nil =>
    cases h
    exact ⟨ok, h₀⟩
  | cons a rest ih =>
    obtain ⟨s₁, hs₁, hrest⟩ := Option.bind_eq_some_iff.mp h
    exact ih (h₀.tail (hmove _ _ _ hs₁)) hrest

/-- The run meets a condition that the moves are checked for. -/
theorem play_checked
    (hcheck : ∀ s a s', move s a = some s' → check s a s' = true → cond s (event s a) s')
    (h₀ : Steps step cond s₀ ok s) (hok : ok) (h : play (checked move check) moves s = some s') :
    play move moves s = some s' ∧ ∃ ok', Steps step cond s₀ ok' s' ∧ ok' := by
  induction moves generalizing s ok with
  | nil =>
    cases h
    exact ⟨rfl, ok, h₀, hok⟩
  | cons a rest ih =>
    obtain ⟨s₁, hs₁, hrest⟩ := Option.bind_eq_some_iff.mp h
    obtain ⟨hs₁, hpass⟩ := Option.filter_eq_some_iff.mp hs₁
    obtain ⟨hplay, hsteps⟩ :=
      ih (h₀.tail (hmove _ _ _ hs₁)) ⟨hok, hcheck _ _ _ hs₁ hpass⟩ hrest
    exact ⟨by rw [play, hs₁]; exact hplay, hsteps⟩

/-- Where given moves lead to, and what is found there -/
theorem reaches (cond : σ → ε → σ → Prop) (moves : List μ) (s₀ : σ) (P : σ → Prop) [DecidablePred P]
    (h : (play move moves s₀).any (fun s => decide (P s)) = true) :
    ∃ s, play move moves s₀ = some s ∧ P s ∧ ∃ ok, Steps step cond s₀ ok s := by
  obtain ⟨s, hs, hP⟩ := (Option.any_eq_true _ _).mp h
  exact ⟨s, hs, of_decide_eq_true hP, play_steps hmove .refl hs⟩

/-- The same for moves that are checked for the condition -/
theorem reaches_checked
    (hcheck : ∀ s a s', move s a = some s' → check s a s' = true → cond s (event s a) s')
    (moves : List μ) (s₀ : σ) (P : σ → Prop) [DecidablePred P]
    (h : (play (checked move check) moves s₀).any (fun s => decide (P s)) = true) :
    ∃ s, play move moves s₀ = some s ∧ P s ∧ ∃ ok, Steps step cond s₀ ok s ∧ ok := by
  obtain ⟨s, hs, hP⟩ := (Option.any_eq_true _ _).mp h
  obtain ⟨hplay, hsteps⟩ := play_checked hmove hcheck .refl trivial hs
  exact ⟨s, hplay, of_decide_eq_true hP, hsteps⟩

end

end Play

end Trace
