import FlowManager.Lib.Trace

/-!
# Results of attempts (providers/grpc, routes/grpc/cc_attempt.go)

The functions `cancel`, `confirm`, `success`, `abandoned` and `retry` of a schema hand a result over
to the request that has started it, on a channel without a buffer. The request receives at most
once: until it has a result, or a context is done. `StartFlow` and `StartSyncFlow` do not receive.

- `step`: a function reports, the request takes what was reported first, or it gives up.
- `Hung`: more results are being handed over than will be received.
- `hands_over_iff`: nobody hangs, and the request returns the first result, exactly as long as one
  result is reported, of the kind that the request returns, while the request waits.
-/

namespace FlowManager.Report

open Trace

/-- The functions of a schema that report -/
inductive Kind where
  | cancel
  | confirm
  | success
  | abandoned
  | retry
  deriving DecidableEq

/-- How a flow is started -/
inductive Entry where
  | distributeAttempt
  | resultAttempt
  | startFlow
  | startSyncFlow
  deriving DecidableEq

/-- The request receives results. -/
def Entry.receives : Entry → Bool
  | .distributeAttempt | .resultAttempt => true
  | .startFlow | .startSyncFlow => false

/-- What is reported is of the type of the response: `DistributeAttemptResponse` or
`ResultAttemptResponse`. -/
def Entry.returns : Entry → Kind → Bool
  | .distributeAttempt, .cancel | .distributeAttempt, .confirm => true
  | .resultAttempt, .success | .resultAttempt, .abandoned | .resultAttempt, .retry => true
  | _, _ => false

section Report

variable {R : Type}

/-- What the request is doing. It returns a result, an empty response for one of another type, or
an error. -/
inductive Request (R : Type) where
  | waiting
  | returned (result : Kind × R)
  | empty
  | failed

/-- The request, the results that are being handed over, in the order of their senders, and all
that were reported while it waited -/
structure State (R : Type) where
  entry : Entry
  request : Request R
  sending : List (Kind × R)
  reported : List (Kind × R)

/-- The flow is started; a request that does not receive is as good as over. -/
def start (entry : Entry) : State R :=
  ⟨entry, if entry.receives then .waiting else .failed, [], []⟩

inductive Event (R : Type) where
  /-- a function calls `Result` -/
  | report (result : Kind × R)
  /-- the request receives -/
  | take
  /-- a context of the request is done -/
  | giveUp

/-- What the request makes of a result -/
def respond (entry : Entry) (result : Kind × R) : Request R :=
  if entry.returns result.1 then .returned result else .empty

inductive Step : State R → Event R → State R → Prop where
  | report {s} (result : Kind × R) : Step s (.report result)
      { s with
        sending := s.sending ++ [result]
        reported := match s.request with
          | .waiting => s.reported ++ [result]
          | _ => s.reported }
  | take {s result rest} (hwaiting : s.request = .waiting) (hsending : s.sending = result :: rest) :
      Step s .take { s with request := respond s.entry result, sending := rest }
  | giveUp {s} (hwaiting : s.request = .waiting) : Step s .giveUp { s with request := .failed }

/-- How many results are still received -/
def Request.capacity : Request R → Nat
  | .waiting => 1
  | _ => 0

/-- Somebody hands over a result that is never received. -/
def Hung (s : State R) : Prop := s.request.capacity < s.sending.length

/-- A request that is over has returned the first result, if there was one. -/
def Answered (s : State R) : Prop :=
  match s.request with
  | .waiting => True
  | .returned result => s.reported.head? = some result
  | .empty => False
  | .failed => s.reported = []

/-- A function reports only while the request waits and nobody else has reported; what is reported
is of the type of the response; and the request does not give up when there is a result. -/
def Orderly (s : State R) : Event R → State R → Prop
  | .report _, _ => s.request = .waiting ∧ s.sending = []
  | .take, _ => ∀ result, s.sending.head? = some result → s.entry.returns result.1 = true
  | .giveUp, _ => s.sending = []

/-- What is being handed over to a request that waits has been reported, once at most. -/
structure Fine (s : State R) : Prop where
  room : ¬ Hung s
  answered : Answered s
  waiting : s.request = .waiting → s.reported = s.sending

/-- Somebody hangs, or the request has not returned what was reported. -/
def Failed (s : State R) : Prop :=
  Hung s ∨ s.request = .empty ∨ s.request = .failed ∧ s.reported ≠ []

variable {s s' : State R} {e : Event R}

theorem Fine.step (h : Fine s) (hstep : Step s e s') (horderly : Orderly s e s') : Fine s' := by
  obtain ⟨hroom, hanswered, hreported⟩ := h
  cases hstep with
  | report result =>
    obtain ⟨hwaiting, hnone⟩ := horderly
    have hempty : s.reported = [] := (hreported hwaiting).trans hnone
    constructor
    · simp [Hung, hwaiting, hnone, Request.capacity]
    · simp [Answered, hwaiting]
    · simp [hwaiting, hnone, hempty]
  | @take result rest hwaiting hsending =>
    have hreturns := horderly result (by rw [hsending]; rfl)
    have hrest : rest = [] := by simpa [Hung, hwaiting, hsending, Request.capacity] using hroom
    constructor
    · simp [Hung, hrest]
    · simp [Answered, respond, hreturns, hreported hwaiting, hsending]
    · simp [respond, hreturns]
  | giveUp hwaiting =>
    have hnone : s.sending = [] := horderly
    constructor
    · simp [Hung, hnone]
    · exact (hreported hwaiting).trans hnone
    · exact nofun

theorem capacity_respond (entry : Entry) (result : Kind × R) :
    (respond entry result).capacity = 0 := by
  unfold respond
  split <;> rfl

theorem failed_of_not_orderly (hstep : Step s e s') (hnot : ¬ Orderly s e s') : Failed s' := by
  cases hstep with
  | report result =>
    left
    by_cases hwaiting : s.request = .waiting
    · have hsome := List.length_pos_iff.mpr fun hnil => hnot ⟨hwaiting, hnil⟩
      simpa [Hung, hwaiting, Request.capacity] using hsome
    · cases hreq : s.request <;> simp_all [Hung, Request.capacity]
  | @take result rest hwaiting hsending =>
    simp only [Orderly, hsending, List.head?_cons, Option.some.injEq, forall_eq'] at hnot
    exact .inr (.inl (if_neg hnot))
  | giveUp hwaiting => exact .inl (List.length_pos_iff.mpr hnot)

/-- What has failed is not made good. -/
theorem Failed.step (h : Failed s) (hstep : Step s e s') : Failed s' := by
  cases hstep with
  | report result =>
    refine h.imp (fun hung => ?_) (Or.imp_right fun hfailed => ⟨hfailed.1, ?_⟩)
    · rw [Hung, List.length_append]
      exact Nat.lt_succ_of_lt hung
    · simpa [hfailed.1] using hfailed.2
  | @take result rest hwaiting hsending =>
    have hung : Hung s := by simpa [Failed, hwaiting] using h
    left
    rw [Hung, capacity_respond]
    simpa [Hung, hwaiting, hsending, Request.capacity] using hung
  | giveUp hwaiting =>
    have hung : Hung s := by simpa [Failed, hwaiting] using h
    exact .inl (Nat.zero_lt_of_lt hung)

theorem fine_start (entry : Entry) : Fine (start entry : State R) := by
  constructor
  · simp [Hung, start]
  · cases entry <;> simp [Answered, start, Entry.receives]
  · exact fun _ => rfl

/-- In every run, nobody hands over a result that is never received, and the request returns the
first result, if and only if all steps were orderly. -/
theorem hands_over_iff {entry : Entry} {ok : Prop} (hrun : Steps Step Orderly (start entry) ok s) :
    (¬ Hung s ∧ Answered s) ↔ ok := by
  have hsides := hrun.dichotomy (fine_start entry) Fine.step
    (fun _ hstep hnot => failed_of_not_orderly hstep hnot) Failed.step
  rcases hsides with ⟨hok, hfine⟩ | ⟨hok, hfailed⟩
  · exact ⟨fun _ => hok, fun _ => ⟨hfine.room, hfine.answered⟩⟩
  · refine ⟨fun ⟨hroom, hanswered⟩ => ?_, fun h => absurd h hok⟩
    rcases hfailed with hung | hempty | ⟨hfail, hreported⟩
    · exact absurd hung hroom
    · rw [Answered, hempty] at hanswered
      exact hanswered.elim
    · rw [Answered, hfail] at hanswered
      exact absurd hanswered hreported

/-- One function reports to a request that waits, and the request returns the result. -/
theorem hands_over_once :
    ∃ s : State Nat, Answered s ∧ ¬ Hung s ∧ s.request = .returned (.confirm, 7) := by
  have hstart : Steps Step Orderly (start .distributeAttempt : State Nat) True _ := .refl
  have hrun := (hstart.tail (.report (.confirm, 7))).tail (.take rfl rfl)
  have hok := (hands_over_iff hrun).mpr
    ⟨⟨trivial, rfl, rfl⟩, by rintro _ ⟨⟩; rfl⟩
  exact ⟨_, hok.2, hok.1, rfl⟩

/-- A schema started by `StartFlow` hangs at its first report. -/
theorem startFlow_hangs :
    ∃ s : State Nat, Step (start .startFlow) (.report (.success, 7)) s ∧ Hung s :=
  ⟨_, .report _, Nat.one_pos⟩

end Report

end FlowManager.Report
