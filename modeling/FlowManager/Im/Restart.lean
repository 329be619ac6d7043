import FlowManager.Im.Park

/-!
# New runs of a suspended schema

The park loop starts a new run when it finds a signal in `resumeCh`. The channel holds one
signal, and a `Suspend` does not take it out, so the signal that the loop finds may be one
from before the last `Suspend`.

Any number of goroutines call `Suspend` and `Resume` here. A tally counts the runs, each
from the moment its context is read, and the signals of `Resume`.

- `Underway`: a `Resume` has made its context, and the run it asks for has not started.
- `Prompt`: no `Suspend` stores the state or cancels a context meanwhile.
- `Turn`, `Round`: whether the goroutine may start a run, and how its accesses change that.
- `restart_of_prompt`: there is at most one new run for every signal; and if all `Suspend`
  calls are prompt, a new run starts in the running state with a live context.
-/

namespace FlowManager.Im

open Concurrent Function

/-- Some callers and the dialog's goroutine. -/
inductive Member (n : Nat) where
  | caller (i : Fin n)
  | runner
  deriving DecidableEq

/-- The runs of a dialog that have been started, and the signals sent to it. -/
structure Tally where
  runs : Nat
  resumes : Nat

/-- A run starts when its context is read. -/
def Tally.count (c : Ptr) (t : Tally) : Op → Tally
  | .runContext d => if d = c then { t with runs := t.runs + 1 } else t
  | .signal d => if d = c then { t with resumes := t.resumes + 1 } else t
  | _ => t

abbrev CallsPool (n : Nat) := Pool (Member n) (Server × Tally) Op Op.Result Label

/-- The caller is inside `Resume`, and has made the new context. -/
def Resuming (c : Ptr) : Go Label → Bool
  | .act (.store d .running) _ => decide (d = c)
  | .act (.signal d) _ => decide (d = c)
  | _ => false

/-- The caller is inside `Resume`, and has stored the state. -/
def Signalling (c : Ptr) : Go Label → Bool
  | .act (.signal d) _ => decide (d = c)
  | _ => false

/-- The goroutine has taken a signal and is about to start a run. -/
def Restarting : Go Label → Bool
  | .act (.repeatInterrupted _) _ => true
  | .act (.runContext _) _ => true
  | _ => false

/-- The next access of the goroutine reads the context of a new run. -/
def Starts (c : Ptr) : Go Label → Bool
  | .act (.runContext d) _ => decide (d = c)
  | _ => false

/-- A `Resume` has made its context, and the run it asks for has not started: the signal is
yet to be sent, waits, or has been taken. -/
def Underway {n : Nat} (c : Ptr) (s : CallsPool n) : Prop :=
  (s.shared.1.conns c).resumeCh = true ∨
    (0 < s.shared.2.runs ∧ Restarting (s.thread .runner) = true) ∨
    ∃ i, Resuming c (s.thread (.caller i)) = true

instance {n : Nat} (c : Ptr) (s : CallsPool n) : Decidable (Underway c s) :=
  inferInstanceAs (Decidable (_ ∨ (_ ∧ _) ∨ ∃ _, _))

/-- `Suspend` stores the state, and cancels a context, only when no `Resume` is underway. -/
def Prompt {n : Nat} (c : Ptr) (s : CallsPool n) (e : Concurrent.Event (Member n) Op)
    (_ : CallsPool n) : Prop :=
  match e with
  | .act (.caller _) (.store _ .suspended) => ¬ Underway c s
  | .act (.caller _) (.cancel _) => ¬ Underway c s
  | _ => True

instance {n : Nat} (c : Ptr) (s : CallsPool n) (e : Concurrent.Event (Member n) Op)
    (s' : CallsPool n) : Decidable (Prompt c s e s') := by
  unfold Prompt
  split <;> infer_instance

/-- A dialog has just been made and dispatched on the server `m`, and nobody has called. -/
def joined (n : Nat) (m : Server) (id : String) (bot : Endpoint) (nested : Bool) : CallsPool n where
  shared := ((dispatched m id bot nested).shared, ⟨0, 0⟩)
  thread
    | .caller _ => .ret .listen
    | .runner => handle ⟨id, m.made⟩

/-! ## Turns of `runSchema` -/

/-- The goroutine is about to start the first run, it has started one and may come to wait
for a signal, it has taken a signal, or it starts no more runs. -/
inductive Turn where
  | first
  | parked
  | taken
  | gone
  deriving DecidableEq

/-- The accesses of `runSchema` between its runs. -/
def Op.works : Op → Bool
  | .routing _ => true
  | .newFlow .. => true
  | .route .. => true
  | .isSuspended _ => true
  | .isTerminating _ => true
  | _ => false

/-- The access takes part in the start of a run. -/
def Op.starts : Op → Bool
  | .runContext _ => true
  | .awaitResume _ => true
  | _ => false

/-- How an access, with its answer, leads from turn to turn. -/
inductive Round (c : Ptr) : Turn → (a : Op) → a.Result → Turn → Prop where
  | take : Round c .first (.take d) () .first
  | start : Round c .first (.runContext c) ctx .parked
  | work (ha : a.works = true) : Round c .parked a r .parked
  | signalled : Round c .parked (.awaitResume c) true .taken
  | ended : Round c .parked (.awaitResume c) false .gone
  | again : Round c .taken (.repeatInterrupted d) () .taken
  | restart : Round c .taken (.runContext c) ctx .parked
  | leave (ha : a.starts = false) : Round c .parked a r .gone
  | gone (ha : a.starts = false) : Round c .gone a r .gone

/-- A goroutine that may start runs goes on in the park loop. -/
def Turn.final (c : Ptr) (st : Turn) (l : Label) : Prop :=
  (st = .parked ∧ l = .park c) ∨ (st = .gone ∧ l = .exit)

/-- The program takes the turns from `st` on. -/
abbrev Turns (c : Ptr) : Turn → Go Label → Prop := Prog.Conforms (Round c) (Turn.final c)

section Programs

variable {c : Ptr} {a : Op} {k : a.Result → Go Label}

/-- What follows the park loop starts no run. -/
theorem turns_of_closing (h : Closing p) : Turns c .gone p := by
  refine h.conforms (fun a r ha => .gone ?_) fun l hl => Or.inr ⟨rfl, hl⟩
  cases a <;> first | rfl | cases ha

theorem turns_stop : Turns c .parked (stop c) :=
  fun _ => ⟨.gone, .leave rfl, turns_of_closing ((closing_stop c).2 ())⟩

theorem turns_park : Turns c .parked (park c) := by
  rintro (_ | _)
  · refine ⟨.parked, .work rfl, ?_⟩
    rintro (_ | _)
    · exact ⟨.gone, .leave rfl, turns_of_closing (closing_finish c)⟩
    · exact ⟨.gone, .leave rfl, turns_of_closing (closing_stop c)⟩
  · refine ⟨.parked, .work rfl, ?_⟩
    rintro (_ | _)
    · refine ⟨.parked, .work rfl, ?_⟩
      rintro (_ | _)
      · exact ⟨.gone, .ended, turns_of_closing (closing_stop c)⟩
      · refine ⟨.taken, .signalled, fun _ => ⟨.taken, .again, fun ctx => ?_⟩⟩
        exact ⟨.parked, .restart, fun _ => ⟨.parked, .work rfl, Or.inl ⟨rfl, rfl⟩⟩⟩
    · exact ⟨.parked, .work rfl, turns_stop⟩

theorem turns_handle : Turns c .first (handle c) := by
  refine fun _ => ⟨.first, .take, fun ctx => ⟨.parked, .start, ?_⟩⟩
  rintro (_ | schema)
  · exact ⟨.parked, .work rfl, turns_stop⟩
  · refine ⟨.parked, .work rfl, fun _ => ⟨.parked, .work rfl, fun _ => ?_⟩⟩
    exact ⟨.parked, .work rfl, Or.inl ⟨rfl, rfl⟩⟩

/-- A goroutine that has taken a signal is about to start a run. -/
theorem restarting_of_taken (h : Turns c .taken p) : Restarting p = true := by
  cases p with
  | ret l => rcases h with ⟨h, -⟩ | ⟨h, -⟩ <;> cases h
  | act a k =>
    obtain ⟨r⟩ := Op.result_nonempty a
    obtain ⟨st', hround, -⟩ := h r
    cases hround <;> rfl

end Programs

/-! ## What every run keeps -/

/-- The runs that the goroutine is bound to start. -/
def Turn.due : Turn → Nat
  | .first => 1
  | .taken => 1
  | _ => 0

/-- The goroutine takes its turns, and the callers call; every run was asked for. -/
structure Accounted {n : Nat} (c : Ptr) (s : CallsPool n) (st : Turn) : Prop where
  turns : Turns c st (s.thread .runner)
  calling : ∀ i, Calling c s.shared.1 false (s.thread (.caller i))
  runs : s.shared.2.runs + (s.shared.1.conns c).resumeCh.toNat + st.due ≤ s.shared.2.resumes + 1
  started : st ≠ .gone → (st = .first ↔ s.shared.2.runs = 0)

/-- As long as the goroutine may start runs: while a `Resume` is underway the run context is
live, and once it has stored the state the connection is running. -/
structure Fresh {n : Nat} (c : Ptr) (s : CallsPool n) (st : Turn) : Prop where
  live : (s.shared.1.conns c).resumeCh = true ∨ st = .taken ∨
      (∃ i, Resuming c (s.thread (.caller i)) = true) →
    st ≠ .gone → ¬ s.shared.1.chans.Closed (s.shared.1.conns c).runCtx
  running : (s.shared.1.conns c).resumeCh = true ∨ st = .taken ∨
      (∃ i, Signalling c (s.thread (.caller i)) = true) →
    st ≠ .gone → (s.shared.1.conns c).state = .running

section Exec

variable {E : Type} {w : Outside E} {c : Ptr} {a : Op} {r : a.Result} {s m : Server}

/-- The accesses of `runSchema` between its runs change nothing about the connection. -/
theorem exec_works (h : exec w a s = some (r, m)) (ha : a.works = true) :
    m.conns = s.conns ∧ m.chans = s.chans := by
  cases a with
  | route d ctx =>
    obtain ⟨_, _, -, -, rfl⟩ := exec_route h
    exact ⟨rfl, rfl⟩
  | routing d =>
    obtain ⟨-, rfl⟩ := h
    exact ⟨rfl, rfl⟩
  | newFlow d schema | isSuspended d | isTerminating d =>
    cases h
    exact ⟨rfl, rfl⟩
  | _ => cases ha

/-- Every signal is counted. -/
theorem exec_tally (h : exec w a s = some (r, m)) (t : Tally) :
    (m.conns c).resumeCh.toNat + t.resumes ≤
      (s.conns c).resumeCh.toNat + (t.count c a).resumes := by
  have hmono : t.resumes ≤ (t.count c a).resumes := by
    unfold Tally.count
    split <;> (try split) <;> simp
  cases hsignal : (m.conns c).resumeCh with
  | false =>
    simp only [Bool.toNat_false]
    omega
  | true =>
    rcases exec_resumeCh h hsignal with hbefore | rfl
    · rw [hbefore]
      omega
    · simp only [Tally.count, if_true, Bool.toNat_true]
      omega

theorem Tally.count_runs (t : Tally) (ha : a.starts = false) : (t.count c a).runs = t.runs := by
  cases a with
  | runContext d => cases ha
  | signal d =>
    unfold Tally.count
    dsimp only
    split <;> rfl
  | _ => rfl

/-- No more runs are started than were due. -/
theorem Round.due (h : Round c st a r st') (t : Tally) (ha : a ≠ .awaitResume c) :
    (t.count c a).runs + st'.due ≤ t.runs + st.due := by
  cases h with
  | start | restart => simp [Tally.count, Turn.due]
  | work ha' =>
    cases a <;> first | rfl | cases ha'
  | signalled | ended => exact absurd rfl ha
  | take | again => exact le_rfl
  | leave ha' => rw [Tally.count_runs t ha']; exact le_rfl
  | gone ha' => rw [Tally.count_runs t ha']

end Exec

section Steps

variable {E : Type} {n : Nat} {c : Ptr} {s s' : CallsPool n} {st : Turn}

theorem Resuming.of_signalling (h : Signalling c p = true) : Resuming c p = true := by
  unfold Signalling at h
  split at h
  · exact h
  · cases h

/-- While the goroutine has taken a signal, a `Resume` is underway. -/
theorem Accounted.underway (h : Accounted c s st)
    (hwindow : (s.shared.1.conns c).resumeCh = true ∨ st = .taken ∨
      ∃ i, Resuming c (s.thread (.caller i)) = true) : Underway c s := by
  rcases hwindow with hsignal | rfl | hresuming
  · exact Or.inl hsignal
  · have hstarted : s.shared.2.runs ≠ 0 := fun hruns => by cases (h.started (by decide)).mpr hruns
    exact Or.inr (Or.inl ⟨Nat.pos_of_ne_zero hstarted, restarting_of_taken h.turns⟩)
  · exact Or.inr (Or.inr hresuming)

/-- A goroutine that starts a run, and not the first one, has taken a signal. -/
theorem Accounted.taken (h : Accounted c s st) (hstarts : Starts c (s.thread .runner) = true)
    (hruns : 0 < s.shared.2.runs) : st = .taken := by
  have hturns := h.turns
  unfold Starts at hstarts
  split at hstarts
  · rename_i d k ht
    rw [ht] at hturns
    obtain ⟨st', hround, -⟩ := hturns 0
    cases hround with
    | restart => rfl
    | start => exact absurd ((h.started (by decide)).mp rfl) (Nat.ne_of_gt hruns)
    | work ha | leave ha | gone ha => cases ha
  · cases hstarts

/-- If nothing about the connection changes, and nobody begins a `Resume`, it stays fresh. -/
theorem Fresh.frame (h : Fresh c s st) (hgone : st = .gone → st' = .gone)
    (hsame : st' ≠ .gone → SameRun c s.shared.1 s'.shared.1)
    (hwindow : st' ≠ .gone → (s'.shared.1.conns c).resumeCh = true ∨ st' = .taken →
      (s.shared.1.conns c).resumeCh = true ∨ st = .taken)
    (hresuming : (∃ i, Resuming c (s'.thread (.caller i)) = true) →
      ∃ i, Resuming c (s.thread (.caller i)) = true)
    (hsignalling : (∃ i, Signalling c (s'.thread (.caller i)) = true) →
      ∃ i, Signalling c (s.thread (.caller i)) = true) : Fresh c s' st' := by
  constructor
  · intro hw hst
    have hrun := hsame hst
    rw [hrun.closed, hrun.runCtx]
    refine h.live ?_ fun hg => hst (hgone hg)
    rcases hw with hw | hw | hw
    · exact (hwindow hst (Or.inl hw)).imp_right Or.inl
    · exact (hwindow hst (Or.inr hw)).imp_right Or.inl
    · exact Or.inr (Or.inr (hresuming hw))
  · intro hw hst
    rw [(hsame hst).state]
    refine h.running ?_ fun hg => hst (hgone hg)
    rcases hw with hw | hw | hw
    · exact (hwindow hst (Or.inl hw)).imp_right Or.inl
    · exact (hwindow hst (Or.inr hw)).imp_right Or.inl
    · exact Or.inr (Or.inr (hsignalling hw))

/-- As long as the goroutine may start runs, it does not touch the state word, the run context
or any channel, and a signal is taken only by itself. -/
theorem Round.sameRun (h : Round c st a r st') (hexec : exec w a m₁ = some (r, m₂))
    (hst : st' ≠ .gone) :
    SameRun c m₁ m₂ ∧ ((m₂.conns c).resumeCh = true ∨ st' = .taken →
      (m₁.conns c).resumeCh = true ∨ st = .taken) := by
  have hsignal : a ≠ .signal c → (m₂.conns c).resumeCh = true → (m₁.conns c).resumeCh = true :=
    fun ha htoken => (exec_resumeCh hexec htoken).resolve_right ha
  cases h with
  | take =>
    refine ⟨?_, fun h => Or.inl (hsignal (by simp) (h.resolve_right (by simp)))⟩
    obtain ⟨_, -, rfl⟩ := exec_take hexec
    exact ⟨rfl, rfl, fun _ => Iff.rfl⟩
  | start =>
    cases hexec
    exact ⟨SameRun.refl, fun h => Or.inl (h.resolve_right (by simp))⟩
  | work ha =>
    obtain ⟨hconns, hchans⟩ := exec_works hexec ha
    refine ⟨⟨by rw [hconns], by rw [hconns], fun _ => by rw [hchans]⟩, fun h => Or.inl ?_⟩
    rw [← hconns]
    exact h.resolve_right (by simp)
  | signalled =>
    rcases exec_awaitResume hexec with ⟨-, hbefore, rfl⟩ | ⟨hr, -⟩
    · obtain ⟨hstate, hctx⟩ := m₁.modify_frame c c
        (f := fun conn => { conn with resumeCh := false }) fun _ => ⟨rfl, rfl⟩
      exact ⟨⟨hstate, hctx, fun _ => Iff.rfl⟩, fun _ => Or.inl hbefore⟩
    · cases hr
  | again =>
    cases hexec
    exact ⟨⟨rfl, rfl, fun _ => Iff.rfl⟩, fun _ => Or.inr rfl⟩
  | restart =>
    cases hexec
    exact ⟨SameRun.refl, fun _ => Or.inr rfl⟩
  | ended | leave | gone => exact absurd rfl hst

/-- The accounts are kept when the goroutine makes its next access. -/
theorem Round.runs
    (h : Round c st a r st') (hexec : exec w a m₁ = some (r, m₂)) {t : Tally}
    (hruns : t.runs + (m₁.conns c).resumeCh.toNat + st.due ≤ t.resumes + 1) :
    (t.count c a).runs + (m₂.conns c).resumeCh.toNat + st'.due ≤ (t.count c a).resumes + 1 := by
  by_cases ha : a = .awaitResume c
  · subst ha
    rcases exec_awaitResume hexec with ⟨rfl, hbefore, rfl⟩ | ⟨rfl, -, rfl⟩
    · cases h with
      | signalled =>
        rw [hbefore] at hruns
        rw [Server.modify_self]
        exact hruns
      | work ha | leave ha | gone ha => cases ha
    · cases h with
      | ended => exact hruns
      | work ha | leave ha | gone ha => cases ha
  · have hdue := h.due t ha
    have htally := exec_tally (c := c) hexec t
    omega

/-- The goroutine is before its first run exactly if none has been started. -/
theorem Round.started {t : Tally} (h : Round c st a r st')
    (hstarted : st ≠ .gone → (st = .first ↔ t.runs = 0)) (hst : st' ≠ .gone) :
    st' = .first ↔ (t.count c a).runs = 0 := by
  cases h with
  | start | restart => simp [Tally.count]
  | work ha =>
    have hstarts : a.starts = false := by cases a <;> first | rfl | cases ha
    rw [Tally.count_runs t hstarts]
    exact hstarted (by decide)
  | signalled =>
    have hparked := hstarted (by decide)
    simpa [Tally.count] using hparked
  | again | take => exact hstarted (by decide)
  | ended | leave | gone => exact absurd rfl hst

/-- The goroutine makes its next access. -/
theorem Accounted.runner (h : Accounted c s st) (ht : s.thread .runner = .act a k)
    (hexec : exec w a s.shared.1 = some (r, m)) :
    ∃ st', Accounted c (s.set .runner (m, s.shared.2.count c a) (k r)) st' ∧
      (Fresh c s st → Fresh c (s.set .runner (m, s.shared.2.count c a) (k r)) st') := by
  have hturns := h.turns
  rw [ht] at hturns
  obtain ⟨st', hround, hk⟩ := hturns r
  have hother : ∀ i, (s.set .runner (m, s.shared.2.count c a) (k r)).thread (.caller i) =
      s.thread (.caller i) := fun i => Pool.set_thread_of_ne _ (by simp) _ _
  refine ⟨st', ⟨?_, fun i => ?_, ?_, ?_⟩, fun hfresh => ?_⟩
  · exact hk
  · exact (h.calling i).sameRun fun hb => by cases hb
  · exact hround.runs hexec h.runs
  · exact hround.started h.started
  · refine hfresh.frame (fun hgone => ?_) (fun hst => (hround.sameRun hexec hst).1)
      (fun hst => (hround.sameRun hexec hst).2) (by simp only [hother]; exact id)
      (by simp only [hother]; exact id)
    subst hgone
    cases hround
    rfl

theorem caller_injective : Function.Injective (Member.caller (n := n)) :=
  fun _ _ => Member.caller.inj

/-- What holds of some caller after caller `i` has gone on holds of `i`, or did so before. -/
theorem exists_caller_set {P : Go Label → Prop}
    (h : ∃ j, P ((s.set (.caller i) m p).thread (.caller j))) :
    P p ∨ ∃ j, P (s.thread (.caller j)) := by
  obtain ⟨j, hj⟩ := h
  by_cases hji : j = i
  · subst hji
    rw [Pool.set_thread_self] at hj
    exact Or.inl hj
  · rw [Pool.set_thread_of_ne _ (caller_injective.ne hji)] at hj
    exact Or.inr ⟨j, hj⟩

section

variable (h : Accounted c s st)
include h

/-- A caller goes on with `p`; the accounts are kept. -/
theorem Accounted.call (hexec : exec w a s.shared.1 = some (r, m))
    (ha : a.starts = false) (hp : Calling c m false p) :
    Accounted c (s.set (.caller i) (m, s.shared.2.count c a) p) st := by
  have hruns := Tally.count_runs (c := c) s.shared.2 ha
  refine ⟨?_, fun j => ?_, ?_, fun hst => ?_⟩
  · exact h.turns
  · refine s.forall_set (Q := fun _ p => Calling c m false p) caller_injective hp (fun j _ => ?_) j
    exact (h.calling j).sameRun fun hb => by cases hb
  · have htally := exec_tally (c := c) hexec s.shared.2
    have hbefore := h.runs
    simp only [Pool.set_shared, hruns]
    omega
  · simp only [Pool.set_shared, hruns]
    exact h.started hst

/-- With no `Resume` underway, nothing is to be said about the connection, also after a caller
has gone on with something that is no part of `Resume`. -/
theorem Accounted.fresh_of_prompt (hprompt : ¬ Underway c s)
    (hp : Resuming c p = false) (hsignal : (m.conns c).resumeCh = (s.shared.1.conns c).resumeCh) :
    Fresh c (s.set (.caller i) (m, t) p) st := by
  have hnone : ¬ ((m.conns c).resumeCh = true ∨ st = .taken ∨
      ∃ j, Resuming c ((s.set (.caller i) (m, t) p).thread (.caller j)) = true) := by
    rw [hsignal]
    rintro (hw | hw | hw)
    · exact hprompt (h.underway (Or.inl hw))
    · exact hprompt (h.underway (Or.inr (Or.inl hw)))
    · rcases exists_caller_set (P := fun p => Resuming c p = true) hw with hw | hw
      · rw [hp] at hw
        cases hw
      · exact hprompt (h.underway (Or.inr (Or.inr hw)))
  refine ⟨fun hw => absurd hw hnone, fun hw => absurd ?_ hnone⟩
  exact hw.imp_right (Or.imp_right fun ⟨j, hj⟩ => ⟨j, Resuming.of_signalling hj⟩)

/-- A caller makes its next access. -/
theorem Accounted.caller (ht : s.thread (.caller i) = .act a k)
    (hexec : exec w a s.shared.1 = some (r, m)) :
    Accounted c (s.set (.caller i) (m, s.shared.2.count c a) (k r)) st ∧
      (Fresh c s st →
        Prompt c s (.act (.caller i) a) (s.set (.caller i) (m, s.shared.2.count c a) (k r)) →
        Fresh c (s.set (.caller i) (m, s.shared.2.count c a) (k r)) st) := by
  have hcalling := h.calling i
  have hthread := ht
  rw [ht] at hcalling
  -- a suspension that starts or cancels a run is late; those that resume make the run fresh
  cases hcalling with
  | suspend =>
    refine ⟨h.call hexec rfl (.load fun hb => by cases hb), fun _ hprompt => ?_⟩
    cases hexec
    exact h.fresh_of_prompt hprompt rfl (by simp)
  | load =>
    refine ⟨h.call hexec rfl (.cancel fun hb => by cases hb), fun hfresh _ => ?_⟩
    cases hexec
    refine hfresh.frame id (fun _ => SameRun.refl) (fun _ => id) (fun hw => ?_) fun hw => ?_
    · exact (exists_caller_set (P := fun p => Resuming c p = true) hw).resolve_left
        (by simp [Resuming])
    · exact (exists_caller_set (P := fun p => Signalling c p = true) hw).resolve_left
        (by simp [Signalling])
  | cancel =>
    refine ⟨h.call hexec rfl .idle, fun _ hprompt => ?_⟩
    cases hexec
    exact h.fresh_of_prompt hprompt rfl rfl
  | resume =>
    refine ⟨h.call hexec rfl (.store fun hb => by cases hb), fun hfresh _ => ?_⟩
    cases hexec
    have hconn : (s.shared.1.newRun c).conns c =
        { s.shared.1.conns c with runCtx := s.shared.1.chans.next } := update_self ..
    refine ⟨fun _ _ => ?_, fun hw hst => ?_⟩
    · simp only [Pool.set_shared, hconn]
      exact s.shared.1.chans.not_closed_next
    · simp only [Pool.set_shared, hconn] at hw ⊢
      refine hfresh.running (hw.imp_right (Or.imp_right fun hw => ?_)) hst
      exact (exists_caller_set (P := fun p => Signalling c p = true) hw).resolve_left
        (by simp [Signalling])
  | store =>
    refine ⟨h.call hexec rfl .signal, fun hfresh _ => ?_⟩
    cases hexec
    refine ⟨fun _ hst => ?_, fun _ _ => by simp⟩
    simp only [Pool.set_shared, Server.modify_self]
    exact hfresh.live (Or.inr (Or.inr ⟨i, by rw [hthread]; simp [Resuming]⟩)) hst
  | signal =>
    refine ⟨h.call hexec rfl .idle, fun hfresh _ => ?_⟩
    cases hexec
    have hsig : Signalling c (s.thread (.caller i)) = true := by rw [hthread]; simp [Signalling]
    refine ⟨fun _ hst => ?_, fun _ hst => ?_⟩
    · simp only [Pool.set_shared, Server.modify_self]
      exact hfresh.live (Or.inr (Or.inr ⟨i, Resuming.of_signalling hsig⟩)) hst
    · simp only [Pool.set_shared, Server.modify_self]
      exact hfresh.running (Or.inr (Or.inr ⟨i, hsig⟩)) hst

/-- A thread goes on at a label. -/
theorem Accounted.next
    (ht : s.thread t = .ret l) (hcode : (calls E c).code w l = some p) :
    Accounted c (s.set t s.shared p) st ∧ (Fresh c s st → Fresh c (s.set t s.shared p) st) := by
  cases t with
  | runner =>
    have hturns := h.turns
    rw [ht] at hturns
    have hother : ∀ i, (s.set .runner s.shared p).thread (.caller i) = s.thread (.caller i) :=
      fun i => Pool.set_thread_of_ne _ (by simp) _ _
    rcases hturns with ⟨rfl, rfl⟩ | ⟨-, rfl⟩
    · cases hcode
      refine ⟨⟨?_, fun i => by rw [hother]; exact h.calling i, h.runs, h.started⟩, fun hfresh => ?_⟩
      · exact turns_park
      · exact hfresh.frame id (fun _ => SameRun.refl) (fun _ => id)
          (by simp only [hother]; exact id)
          (by simp only [hother]; exact id)
    · cases hcode
  | caller i =>
    have hcalling := h.calling i
    rw [ht] at hcalling
    cases hcalling
    cases hcode
    -- a call begins with an access that is no part of a `Resume` underway
    have hp : Calling c s.shared.1 false (do w.2.method c; return .listen) ∧
        Resuming c (do w.2.method c; return .listen) = false := by
      cases w.2 with
      | suspend => exact ⟨.suspend, rfl⟩
      | resume => exact ⟨.resume, rfl⟩
    refine ⟨⟨?_, fun j => ?_, h.runs, h.started⟩, fun hfresh => ?_⟩
    · exact h.turns
    · exact s.forall_set (Q := fun _ p => Calling c s.shared.1 false p) caller_injective hp.1
        (fun j _ => h.calling j) j
    · refine hfresh.frame id (fun _ => SameRun.refl) (fun _ => id) (fun hw => ?_) fun hw => ?_
      · refine (exists_caller_set (P := fun p => Resuming c p = true) hw).resolve_left fun hr => ?_
        rw [hp.2] at hr
        cases hr
      · refine (exists_caller_set (P := fun p => Signalling c p = true) hw).resolve_left
          fun hr => ?_
        rw [Resuming.of_signalling hr] at hp
        cases hp.2

/-- The shared state changes by itself. -/
theorem Accounted.env (henv : Env s.shared.1 m.1) (htally : m.2 = s.shared.2) :
    Accounted c { s with shared := m } st ∧
      (Fresh c s st → Fresh c { s with shared := m } st) := by
  have hsignal := henv.resumeCh c
  have hcalling : ∀ i, Calling c m.1 false (s.thread (.caller i)) := fun i =>
    (h.calling i).sameRun (by simp)
  refine ⟨⟨h.turns, hcalling, ?_, ?_⟩, fun hfresh => ?_⟩
  · simp only [htally, hsignal]
    exact h.runs
  · simp only [htally]
    exact h.started
  · exact hfresh.frame id (fun _ => henv.frame.1) (fun _ hw => by rwa [← hsignal]) id id

/-- Every step keeps the accounts, and a prompt one keeps the connection fresh. -/
theorem Accounted.step (hstep : Step ((calls E c).tallied (Tally.count c)) s e s') :
    ∃ st', Accounted c s' st' ∧ (Fresh c s st → Prompt c s e s' → Fresh c s' st') := by
  cases hstep with
  | @act t a k w r m ht hexec =>
    obtain ⟨⟨r, m⟩, hmade, heq⟩ := Option.map_eq_some_iff.mp hexec
    cases heq
    cases t with
    | runner =>
      obtain ⟨st', haccounted, hfresh⟩ := h.runner ht hmade
      exact ⟨st', haccounted, fun hf _ => hfresh hf⟩
    | caller i => exact ⟨st, h.caller ht hmade⟩
  | next ht hcode =>
    obtain ⟨haccounted, hfresh⟩ := h.next ht hcode
    exact ⟨st, haccounted, fun hf _ => hfresh hf⟩
  | env henv =>
    obtain ⟨haccounted, hfresh⟩ := h.env henv.1 henv.2
    exact ⟨st, haccounted, fun hf _ => hfresh hf⟩

end

/-- A dialog that has just been dispatched. -/
theorem accounted_joined (n : Nat) (m : Server) (id : String) (bot : Endpoint) (nested : Bool) :
    Accounted ⟨id, m.made⟩ (joined n m id bot nested) .first ∧
      Fresh ⟨id, m.made⟩ (joined n m id bot nested) .first := by
  have hsignal : ((joined n m id bot nested).shared.1.conns ⟨id, m.made⟩).resumeCh = false := by
    show (update m.conns _ _ _ : Connection).resumeCh = false
    rw [update_self]
  refine ⟨⟨turns_handle, fun _ => .idle, ?_, fun hst => ?_⟩, fun hw => ?_, fun hw => ?_⟩
  · rw [hsignal]
    exact le_rfl
  · exact ⟨fun _ => rfl, fun _ => rfl⟩
  · rw [hsignal] at hw
    rcases hw with hw | hw | ⟨i, hw⟩ <;> cases hw
  · rw [hsignal] at hw
    rcases hw with hw | hw | ⟨i, hw⟩ <;> cases hw

end Steps

/-! ## New runs -/

/-- In every interleaving of a dialog with any number of goroutines that call `Suspend` and
`Resume` on it, there is at most one run for every signal of a `Resume`, besides the first.
If no `Suspend` stores the state or cancels a context while a `Resume` is underway, then
every run but the first starts while the connection is running, with a context that has not
been cancelled. -/
theorem restart_of_prompt {E : Type} {n : Nat} {m : Server} {id : String} {bot : Endpoint}
    {nested : Bool} {ok : Prop} {s : CallsPool n}
    (h : Trace.Steps (Step ((calls E ⟨id, m.made⟩).tallied (Tally.count ⟨id, m.made⟩)))
      (Prompt ⟨id, m.made⟩) (joined n m id bot nested) ok s) :
    s.shared.2.runs ≤ s.shared.2.resumes + 1 ∧
      (ok → Starts ⟨id, m.made⟩ (s.thread .runner) = true → 0 < s.shared.2.runs →
        (s.shared.1.conns ⟨id, m.made⟩).state = .running ∧
        ¬ s.shared.1.chans.Closed (s.shared.1.conns ⟨id, m.made⟩).runCtx) := by
  have hinit := accounted_joined n m id bot nested
  let InOrder (s : CallsPool n) : Prop := ∃ st, Accounted ⟨id, m.made⟩ s st
  let Good (s : CallsPool n) : Prop :=
    ∃ st, Accounted ⟨id, m.made⟩ s st ∧ Fresh ⟨id, m.made⟩ s st
  have horder : InOrder s := by
    refine h.always ⟨_, hinit.1⟩ ?_
    rintro s e s' ⟨st, hs⟩ hstep
    obtain ⟨st', hs', -⟩ := hs.step hstep
    exact ⟨st', hs'⟩
  refine ⟨?_, fun hok hstarts hruns => ?_⟩
  · obtain ⟨st, hs⟩ := horder
    have := hs.runs
    omega
  · have hgood : Good s := by
      refine h.invariant ⟨_, hinit⟩ ?_ hok
      rintro s e s' ⟨st, hs, hf⟩ hstep hprompt
      obtain ⟨st', hs', hf'⟩ := hs.step hstep
      exact ⟨st', hs', hf' hf hprompt⟩
    obtain ⟨st, hs, hf⟩ := hgood
    have hst : st = .taken := hs.taken hstarts hruns
    exact ⟨hf.running (Or.inr (Or.inl hst)) (by rw [hst]; decide),
      hf.live (Or.inr (Or.inl hst)) (by rw [hst]; decide)⟩

/-- The dialog of bot 1 in thread `t`, just dispatched on a new server, and one caller. -/
def joinedOne : CallsPool 1 :=
  joined 1 Server.init "t.1" ⟨"1", userTypeBot, "", "member", 0⟩ false

/-- The dialog moves. -/
def runnerSteps (moves : Nat) : List (Member 1 × Outside Unit × Call) :=
  List.replicate moves (.runner, helpful, .suspend)

/-- A call of the only caller. -/
def calling (call : Call) : List (Member 1 × Outside Unit × Call) :=
  List.replicate 4 (.caller 0, helpful, call)

/-- The dialog is suspended inside its first run, and the run is cut off. -/
def cutShort : List (Member 1 × Outside Unit × Call) :=
  let cutting := { helpful with world := { steadyWorld with select := fun _ _ => .done false } }
  runnerSteps 4 ++ calling .suspend ++ [(.runner, cutting, .suspend)]

/-- What there is to see of the dialog: whether a run is about to start, how many have been,
the state, and whether the run context is cancelled. -/
def glance (s : CallsPool 1) : Bool × Nat × ConnState × Bool :=
  (Starts ⟨"t.1", 0⟩ (s.thread .runner), s.shared.2.runs, (s.shared.1.conns ⟨"t.1", 0⟩).state,
    decide (s.shared.1.chans.Closed (s.shared.1.conns ⟨"t.1", 0⟩).runCtx))

/-- The dialog is suspended, the park loop waits, and the dialog is resumed: the loop starts a
new run. -/
def awaited : List (Member 1 × Outside Unit × Call) :=
  cutShort ++ runnerSteps 3 ++ calling .resume ++ runnerSteps 2

/-- That run starts in the running state, with a live context. -/
theorem restart_of_prompt_awaited :
    ∃ s, Pool.play ((calls Unit ⟨"t.1", 0⟩).tallied (Tally.count ⟨"t.1", 0⟩)) awaited joinedOne =
        some s ∧ Starts ⟨"t.1", 0⟩ (s.thread .runner) = true ∧ 0 < s.shared.2.runs ∧
      (s.shared.1.conns ⟨"t.1", 0⟩).state = .running ∧
      ¬ s.shared.1.chans.Closed (s.shared.1.conns ⟨"t.1", 0⟩).runCtx := by
  obtain ⟨s, hs, ⟨hstarts, hpos⟩, ok, hsteps, hok⟩ := Pool.reaches
    ((calls Unit ⟨"t.1", 0⟩).tallied (Tally.count ⟨"t.1", 0⟩))
    (fun s e s' => of_decide_eq_true (p := Prompt ⟨"t.1", 0⟩ s e s')) awaited joinedOne
    (fun s => Starts ⟨"t.1", 0⟩ (s.thread .runner) = true ∧ 0 < s.shared.2.runs) (by decide +kernel)
  exact ⟨s, (Pool.play_eq ..).trans hs, hstarts, hpos,
    (restart_of_prompt (m := Server.init) hsteps).2 hok hstarts hpos⟩

/-- The dialog is suspended, resumed and suspended again before the park loop looks. -/
def stale : List (Member 1 × Outside Unit × Call) :=
  cutShort ++ calling .resume ++ calling .suspend ++ runnerSteps 5

/-- The loop takes the signal of the `Resume` before the last `Suspend`, and starts a run in
the suspended state with a context that is already cancelled. -/
theorem restart_of_prompt_stale :
    ∃ ok s, Trace.Steps (Step ((calls Unit ⟨"t.1", 0⟩).tallied (Tally.count ⟨"t.1", 0⟩)))
        (Prompt ⟨"t.1", 0⟩) joinedOne ok s ∧
      Starts ⟨"t.1", 0⟩ (s.thread .runner) = true ∧ 0 < s.shared.2.runs ∧
      (s.shared.1.conns ⟨"t.1", 0⟩).state = .suspended ∧
      s.shared.1.chans.Closed (s.shared.1.conns ⟨"t.1", 0⟩).runCtx := by
  obtain ⟨s, -, hglance, ok, hsteps⟩ := Trace.reaches
    (Pool.moves_step ((calls Unit ⟨"t.1", 0⟩).tallied (Tally.count ⟨"t.1", 0⟩)))
    (Prompt ⟨"t.1", 0⟩) stale joinedOne (fun s => glance s = (true, 1, .suspended, true))
    (by decide +kernel)
  simp only [glance, Prod.mk.injEq, decide_eq_true_eq] at hglance
  obtain ⟨hstarts, hruns, hstate, hclosed⟩ := hglance
  exact ⟨ok, s, hsteps, hstarts, by omega, hstate, hclosed⟩

end FlowManager.Im
