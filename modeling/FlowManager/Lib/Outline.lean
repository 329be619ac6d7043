import FlowManager.Lib.Concurrent

/-!
# Threads at points of their code

A proof about interleavings needs to know where the threads are. Here every thread has come
to a point of its code, and the code from a point on is a program. What a step can do is said
once, as a relation between memories and points, and invariants are then about a memory, the
points of the threads and a history, with no programs in them.

- `Pool.At`: the threads are at the given points; `update_family`, `forall_family`: what is known
  of the threads of a family when one of them moves.
- `Outline`: what a step can do, by accesses and by starts of labels; `Leads`: what a thread can
  do at a point, from which `Outline.of_leads` and `Outline.of_moves` put an outline together.
- `Pool.At.step`: if every access and every start of a label is a move between points, so is
  every step.
- `Outline.invariant`: an invariant of memory and points, over a run under a condition;
  `Outline.run`: the same with a history.
-/

namespace Concurrent

open Function

universe u

section Points

variable {T σ A L : Type} {P : T → Type} {R : A → Type} {W : Type u}

/-- Every thread is at its point, where `prog` says what it has still to do. -/
def Pool.At (prog : (t : T) → P t → Prog A R L) (s : Pool T σ A R L) (pts : ∀ t, P t) : Prop :=
  ∀ t, s.thread t = prog t (pts t)

variable [DecidableEq T] {sys : System σ W A R L} {prog : (t : T) → P t → Prog A R L}
  {s s' : Pool T σ A R L} {pts : ∀ t, P t}

theorem Pool.At.set (h : s.At prog pts) (t : T) (m : σ) (pt : P t) :
    (s.set t m (prog t pt)).At prog (update pts t pt) := by
  intro u
  by_cases hu : u = t
  · subst hu
    rw [Pool.set_thread_self, update_self]
  · rw [Pool.set_thread_of_ne _ hu, update_of_ne hu]
    exact h u

/-- A quantity of the threads of a family, after one of them has moved. -/
theorem update_family {ι β : Type} [DecidableEq ι] {f : ι → T} (hf : Injective f)
    (g : ∀ j, P (f j) → β) (pts : ∀ t, P t) (i : ι) (pt : P (f i)) :
    (fun j => g j (update pts (f i) pt (f j))) = update (fun j => g j (pts (f j))) i (g i pt) := by
  funext j
  rw [← apply_update g]
  exact congrArg (g j) (congrFun (update_comp_eq_of_injective' pts hf i pt) j)

/-- A fact about each of them. -/
theorem forall_family {ι : Type} [DecidableEq ι] {f : ι → T} (hf : Injective f)
    (Q : ∀ j, P (f j) → Prop) {i : ι} {pt : P (f i)} (hi : Q i pt)
    (hother : ∀ j, j ≠ i → Q j (pts (f j))) (j : ι) : Q j (update pts (f i) pt (f j)) := by
  rw [congrFun (update_family hf Q pts i pt) j, update_apply]
  split
  · exact hi
  · exact hother j ‹_›

/-- What moves between points: an access, the start of a label, and the memory by itself. -/
structure Outline (sys : System σ W A R L) (prog : (t : T) → P t → Prog A R L)
    (Moves : σ → (∀ t, P t) → Event T A → σ → (∀ t, P t) → Prop) : Prop where
  act {m m' : σ} {pts : ∀ t, P t} {t : T} {a : A} {k : R a → Prog A R L} {w : W} {r : R a}
    (hprog : prog t (pts t) = .act a k) (hexec : sys.exec w a m = some (r, m')) :
    ∃ pt, k r = prog t pt ∧ Moves m pts (.act t a) m' (update pts t pt)
  next {m : σ} {pts : ∀ t, P t} {t : T} {l : L} {w : W} {p : Prog A R L}
    (hprog : prog t (pts t) = .ret l) (hcode : sys.code w l = some p) :
    ∃ pt, p = prog t pt ∧ Moves m pts (.next t) m (update pts t pt)
  env {m m' : σ} {pts : ∀ t, P t} (henv : sys.env m m') : Moves m pts .env m' pts

/-- What happens when a thread makes an access, or goes on at a label. -/
def Event.of (t : T) : Option A → Event T A
  | some a => .act t a
  | none => .next t

/-- A thread moves by itself, and the others stay where they are: `moves t` is what the thread
`t` can do, by an access or at a label. -/
inductive Moving (moves : (t : T) → σ → P t → Option A → σ → P t → Prop) (m : σ)
    (pts : ∀ t, P t) : Event T A → σ → (∀ t, P t) → Prop where
  | move {t : T} {a : Option A} {m' : σ} {pt : P t} (h : moves t m (pts t) a m' pt) :
      Moving moves m pts (Event.of t a) m' (update pts t pt)

section Leads

variable {Q : Type} {exec : W → (a : A) → σ → Option (R a × σ)} {code : W → L → Option (Prog A R L)}
  {prog : Q → Prog A R L} {moves : σ → Q → Option A → σ → Q → Prop} {m : σ} {pt pt' : Q}

/-- Whatever a thread does next at the point `pt` is a move. -/
def Leads (exec : W → (a : A) → σ → Option (R a × σ)) (code : W → L → Option (Prog A R L))
    (prog : Q → Prog A R L) (moves : σ → Q → Option A → σ → Q → Prop) (m : σ) (pt : Q) : Prop :=
  match prog pt with
  | .act a k => ∀ w y, exec w a m = some y → ∃ pt', k y.1 = prog pt' ∧ moves m pt (some a) y.2 pt'
  | .ret l => ∀ w p, code w l = some p → ∃ pt', p = prog pt' ∧ moves m pt none m pt'

/-- An access with one answer. -/
theorem Leads.act
    (h : moves m pt (some a) m' pt') (hprog : prog pt = .act a k := by rfl)
    (hexec : ∀ w, exec w a m = some (r, m') := by exact fun _ => rfl)
    (hpt : k r = prog pt' := by rfl) : Leads exec code prog moves m pt := by
  unfold Leads
  rw [hprog]
  intro w z hz
  cases (hexec w).symm.trans hz
  exact ⟨pt', hpt, h⟩

/-- A label with one program behind it. -/
theorem Leads.next (h : moves m pt none m pt') (hprog : prog pt = .ret l := by rfl)
    (hcode : ∀ w, code w l = some (prog pt') := by exact fun _ => rfl) :
    Leads exec code prog moves m pt := by
  unfold Leads
  rw [hprog]
  intro w p hp
  cases (hcode w).symm.trans hp
  exact ⟨pt', rfl, h⟩

theorem Leads.mono {moves' : σ → Q → Option A → σ → Q → Prop}
    (h : Leads exec code prog moves m pt)
    (hmoves : ∀ {a m' pt'}, moves m pt a m' pt' → moves' m pt a m' pt') :
    Leads exec code prog moves' m pt := by
  unfold Leads at h ⊢
  split at h
  · exact fun w y hy => (h w y hy).imp fun _ => And.imp_right hmoves
  · exact fun w p hp => (h w p hp).imp fun _ => And.imp_right hmoves

end Leads

variable {Moves : σ → (∀ t, P t) → Event T A → σ → (∀ t, P t) → Prop}
  {exec : W → (a : A) → σ → Option (R a × σ)}

/-- The outline of a system whose memory does not change by itself, thread by thread; `exec` may
allow more than the system does. -/
theorem Outline.of_leads (h : ∀ m pts t, Leads exec sys.code (prog t)
      (fun m _ a m' pt => Moves m pts (Event.of t a) m' (update pts t pt)) m (pts t))
    (hexec : ∀ {w a m y}, sys.exec w a m = some y → exec w a m = some y)
    (henv : ∀ m m', ¬ sys.env m m') : Outline sys prog Moves where
  act {m m' pts t a k w r} hprog hy := by
    have hleads := h m pts t
    unfold Leads at hleads
    rw [hprog] at hleads
    exact hleads w _ (hexec hy)
  next {m pts t l w p} hprog hcode := by
    have hleads := h m pts t
    unfold Leads at hleads
    rw [hprog] at hleads
    exact hleads w p hcode
  env h := absurd h (henv _ _)

/-- The same for threads that move by themselves. -/
theorem Outline.of_moves {moves : (t : T) → σ → P t → Option A → σ → P t → Prop}
    (h : ∀ t m pt, Leads exec sys.code (prog t) (moves t) m pt)
    (hexec : ∀ {w a m y}, sys.exec w a m = some y → exec w a m = some y)
    (henv : ∀ m m', ¬ sys.env m m') : Outline sys prog (Moving moves) :=
  .of_leads (fun m pts t => (h t m (pts t)).mono .move) hexec henv

/-- A step leads from points to points. -/
theorem Pool.At.step (h : s.At prog pts) (ho : Outline sys prog Moves) (hstep : Step sys s e s') :
    ∃ pts', s'.At prog pts' ∧ Moves s.shared pts e s'.shared pts' := by
  cases hstep with
  | @act t a k w r m ht hexec =>
    rw [h t] at ht
    obtain ⟨pt, hk, hmoves⟩ := ho.act ht hexec
    refine ⟨update pts t pt, ?_, hmoves⟩
    rw [hk]
    exact h.set t m pt
  | @next t l w p ht hcode =>
    rw [h t] at ht
    obtain ⟨pt, hp, hmoves⟩ := ho.next ht hcode
    refine ⟨update pts t pt, ?_, hmoves⟩
    rw [hp]
    exact h.set t s.shared pt
  | @env m henv => exact ⟨pts, h, ho.env henv⟩

/-- An invariant of the memory and the points of the threads, kept by the moves that meet the
condition, holds along every run of such steps. -/
theorem Outline.invariant (ho : Outline sys prog Moves)
    {cond : Pool T σ A R L → Event T A → Pool T σ A R L → Prop} {Inv : σ → (∀ t, P t) → Prop}
    {ok : Prop} (h : Trace.Steps (Step sys) cond s₀ ok s) (hok : ok) (hat : s₀.At prog pts)
    (hinit : Inv s₀.shared pts)
    (hkeep : ∀ {s s' : Pool T σ A R L} {m m' : σ} {pts pts' : ∀ t, P t} {e : Event T A},
      s.shared = m → s'.shared = m' → s.At prog pts → s'.At prog pts' → Moves m pts e m' pts' →
        Inv m pts → cond s e s' → Inv m' pts') : ∃ pts, s.At prog pts ∧ Inv s.shared pts := by
  let Good (s : Pool T σ A R L) : Prop := ∃ pts, s.At prog pts ∧ Inv s.shared pts
  have hgood : Good s := by
    refine h.invariant ⟨pts, hat, hinit⟩ ?_ hok
    rintro s e s' ⟨pts, hpts, hinv⟩ hstep hcond
    obtain ⟨pts', hpts', hmoves⟩ := hpts.step ho hstep
    exact ⟨pts', hpts', hkeep rfl rfl hpts hpts' hmoves hinv hcond⟩
  exact hgood

/-- The same, with a history in the invariant. -/
theorem Outline.run {τ : Type} (ho : Outline sys prog Moves)
    {note : Pool T σ A R L → Event T A → Pool T σ A R L → τ → τ}
    {cond : Pool T σ A R L × τ → Event T A → Pool T σ A R L × τ → Prop}
    {Inv : σ → (∀ t, P t) → τ → Prop} {x₀ x : Pool T σ A R L × τ} {ok : Prop}
    (h : Trace.Steps (Recorded sys note) cond x₀ ok x) (hok : ok) (hat : x₀.1.At prog pts)
    (hinit : Inv x₀.1.shared pts x₀.2)
    (hkeep : ∀ {s s' : Pool T σ A R L} {m m' : σ} {pts pts' : ∀ t, P t} {e : Event T A} {t : τ},
      s.shared = m → s'.shared = m' → s.At prog pts → s'.At prog pts' → Moves m pts e m' pts' →
        Inv m pts t → cond (s, t) e (s', note s e s' t) → Inv m' pts' (note s e s' t)) :
    ∃ pts, x.1.At prog pts ∧ Inv x.1.shared pts x.2 := by
  let Good (x : Pool T σ A R L × τ) : Prop := ∃ pts, x.1.At prog pts ∧ Inv x.1.shared pts x.2
  have hgood : Good x := by
    refine h.invariant ⟨pts, hat, hinit⟩ ?_ hok
    rintro ⟨s, t⟩ e ⟨s', t'⟩ ⟨pts, hpts, hinv⟩ ⟨hstep, ht'⟩ hcond
    obtain ⟨pts', hpts', hmoves⟩ := hpts.step ho hstep
    dsimp only at hstep ht' hinv
    subst ht'
    exact ⟨pts', hpts', hkeep rfl rfl hpts hpts' hmoves hinv hcond⟩
  exact hgood

end Points

end Concurrent
