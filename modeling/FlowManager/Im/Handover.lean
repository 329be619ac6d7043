import FlowManager.Im.Stages
import FlowManager.Im.Terminating

/-!
# Messages for a dialog that ends

A message is routed by the connection store alone: if it holds a connection for the bot, the
message is handed to it, otherwise a dialog is started. A connection stays in the store from
the end of its run, or from `Break`, until its goroutine comes to `stopConnection`: through
the completion call, the resumption of the parent and the disconnected trigger.

- `EndsRun`: a step ends the run of a dialog, or terminates it; `endings` keeps record of
  these.
- `Spaced`: no message is looked up while its dialog shuts down, and no run ends between the
  lookup of a message and its handover.
- `Delivering`: a message that is being handled, and has not yet come to a given receiver.
- `handover_of_spaced`: in a spaced run messages are handed only to dialogs whose run has not
  ended; and whatever happens, a message is handed over or leads to a claim.
-/

namespace FlowManager.Im

open Concurrent

/-- The goroutine will not call `Route` any more. -/
abbrev Past (p : Go Label) : Prop := p.Uses (fun a => ∀ c ctx, a ≠ .route c ctx) (· = .exit)

/-- The goroutine has nothing to delete from the connection store any more. -/
abbrev Gone (p : Go Label) : Prop := p.Uses (fun a => ∀ id, a ≠ .delete id) (· = .exit)

/-- The step ends the run of the dialog `c`: `Route` returns without having been cut off, or
the goroutine leaves the park loop or finds no schema, or the connection is terminated. -/
inductive EndsRun (c : Ptr) (s : ServerPool) : Concurrent.Event Thread Op → ServerPool → Prop where
  | returned {ctx : Nat} {s' : ServerPool} (h : s'.shared.cutOff c = false) :
      EndsRun c s (.act (.runner c) (.route c ctx)) s'
  | left {e : Concurrent.Event Thread Op} {s' : ServerPool} (hs : ¬ Past (s.thread (.runner c)))
      (hs' : Past (s'.thread (.runner c))) : EndsRun c s e s'
  | terminated : EndsRun c s (.act t (.store c .terminating)) s'

/-- The dialogs whose runs have ended so far. -/
def endings (s : ServerPool) (e : Concurrent.Event Thread Op) (s' : ServerPool) (ended : Ptr → Prop)
    (c : Ptr) : Prop := ended c ∨ EndsRun c s e s'

/-- The listener is about to hand the message to the connection. -/
def Hands (c : Ptr) (m : Message) (p : Go Label) : Prop := ∃ k, p = .act (.onMessage c m) k

/-- The run of the dialog has ended, and its connection is not deleted yet. -/
def ShutsDown (c : Ptr) (x : ServerPool × (Ptr → Prop)) : Prop :=
  x.2 c ∧ ¬ Gone (x.1.thread (.runner c))

/-- No message is looked up while its dialog shuts down, and the goroutine of a dialog does not
end its run while a message that was looked up waits to be handed to it. System notices are
not meant. -/
structure Spaced (x : ServerPool × (Ptr → Prop)) (e : Concurrent.Event Thread Op)
    (y : ServerPool × (Ptr → Prop)) : Prop where
  lookup : ∀ c m, e = .act .listener (.get c.id) → Hands c m (y.1.thread .listener) →
    m.isSystem = false → ¬ ShutsDown c x
  handover : ∀ c m, e.thread = some (.runner c) → Hands c m (x.1.thread .listener) →
    m.isSystem = false → ¬ EndsRun c x.1 e y.1

/-! ## Handed over in time -/

section InTime

variable {E : Type} {s s' : ServerPool} {e : Concurrent.Event Thread Op} {c : Ptr} {m : Message}

/-- Until its goroutine has deleted it, a connection is not gone. -/
theorem not_gone_of_keeping (h : Keeping c .before p) : ¬ Gone p := by
  induction p with
  | ret l =>
    rintro rfl
    rcases h with ⟨-, h⟩ | ⟨h, -⟩ <;> cases h
  | act a k ih =>
    intro hgone
    obtain ⟨r⟩ := Op.result_nonempty a
    obtain ⟨st', hruns, hk⟩ := h r
    cases hruns with
    | work => exact ih r hk (hgone.2 r)
    | delete => exact hgone.1 c.id rfl

theorem found_of_hands (hserving : Serving (· = .listen) st p) (h : Hands c m p) :
    st = .found c := by
  obtain ⟨k, rfl⟩ := h
  obtain ⟨st', hlistens, -⟩ := hserving ()
  cases hlistens with
  | serve ha => cases ha
  | hand => rfl

/-- Only the listener and the goroutine of the dialog itself end its run. -/
theorem thread_of_endsRun (h : Staged s) (hstep : Step (dialogs E) s e s')
    (hends : EndsRun c s e s') : e.thread = some .listener ∨ e.thread = some (.runner c) := by
  cases hends with
  | returned => exact Or.inr rfl
  | left hs hs' =>
    refine Or.inr ?_
    by_contra hne
    refine hs ?_
    rwa [hstep.thread_eq hne] at hs'
  | @terminated t =>
    cases t with
    | listener => exact Or.inl rfl
    | runner d =>
      cases hstep with
      | @act _ _ k w r m ht hexec =>
        obtain ⟨st, hkeeping, -⟩ := h.runner d
        rw [ht] at hkeeping
        obtain ⟨st', hruns, -⟩ := hkeeping r
        cases hruns with
        | work ha =>
          simp only [Op.worksFor, reduceCtorEq, or_false, decide_eq_true_eq] at ha
          exact Or.inr (by rw [ha]; rfl)

/-- What has been found for a message has been found in the store. -/
theorem stored_of_hands (h : Staged s) (hstep : Step (dialogs E) s e s')
    (hmoves : e.thread = some .listener) (hhands : Hands c m (s'.thread .listener)) :
    e = .act .listener (.get c.id) ∧ s.shared.store.lookup c.id = some c.gen := by
  obtain ⟨st, hserving, -⟩ := h.listener
  cases hstep with
  | @act t a k w r m ht hexec =>
    cases hmoves
    rw [ht] at hserving
    obtain ⟨st', hlistens, hk⟩ := hserving r
    cases found_of_hands hk hhands
    cases hlistens
    simp only [dialogs, exec, Option.some.injEq, Prod.mk.injEq] at hexec
    exact ⟨rfl, hexec.1⟩
  | @next t l w p ht hcode =>
    cases hmoves
    rw [ht] at hserving
    obtain ⟨rfl, rfl⟩ := hserving
    cases hcode
    cases found_of_hands (serving_listen w.event) hhands
  | env => cases hmoves

end InTime

/-- Nobody waits for a message whose dialog has ended. -/
def InTime (x : ServerPool × (Ptr → Prop)) : Prop :=
  Staged x.1 ∧ ∀ c m, Hands c m (x.1.thread .listener) → m.isSystem = false → ¬ x.2 c

theorem InTime.step {E : Type} {x y : ServerPool × (Ptr → Prop)} (h : InTime x)
    (hstep : Recorded (dialogs E) endings x e y) (hspaced : Spaced x e y) : InTime y := by
  obtain ⟨hstaged, hintime⟩ := h
  obtain ⟨hstep, hended⟩ := hstep
  refine ⟨hstaged.step hstep, fun c m hhands hsystem => ?_⟩
  rw [hended]
  by_cases hmoves : e.thread = some .listener
  · -- the message has just been looked up: its dialog is stored, so it is not gone
    obtain ⟨rfl, hstored⟩ := stored_of_hands hstaged hstep hmoves hhands
    rintro (hbefore | hends)
    · refine hspaced.lookup c m rfl hhands hsystem ⟨hbefore, ?_⟩
      obtain ⟨st, hkeeping, hgone⟩ := hstaged.runner c
      have hst : st = .before := by
        by_contra hst
        exact hgone hst hstored
      rw [hst] at hkeeping
      exact not_gone_of_keeping hkeeping
    · cases hends with
      | left hs hs' =>
        rw [hstep.thread_eq (by simp [Event.thread])] at hs'
        exact hs hs'
  · -- the message waits, and only the goroutine of its dialog could end the run
    rw [hstep.thread_eq hmoves] at hhands
    rintro (hended | hends)
    · exact hintime c m hhands hsystem hended
    · rcases thread_of_endsRun hstaged hstep hends with hlistener | hrunner
      · exact hmoves hlistener
      · exact hspaced.handover c m hrunner hhands hsystem hends

/-! ## Handed over, or a claim -/

/-- The session of a receiver -/
def Message.sessionID (m : Message) (endpoint : Endpoint) : String :=
  m.threadID ++ "." ++ endpoint.sub

/-- The bot with the session `id` is among the receivers. -/
def Due (m : Message) (id : String) (endpoints : List Endpoint) : Prop :=
  ∃ endpoint ∈ endpoints, endpoint.issuer = userTypeBot ∧ m.sessionID endpoint = id

/-- The rest of a round of the listener with a message. -/
def serve (m : Message) (endpoints : List Endpoint) : Go Label := do
  let _ ← nodeReceivers m endpoints
  return .listen

/-- How the round goes on behind `startDialog`. -/
def served (m : Message) (endpoints : List Endpoint) : Except String Unit → Go Label
  | .error _ => .ret .listen
  | .ok () => serve m endpoints

/-- What is done about a bot. -/
theorem serve_bot (hbot : endpoint.issuer = userTypeBot) :
    serve m (endpoint :: endpoints) = .act (.get (m.sessionID endpoint)) fun found =>
      match found with
      | some gen => .act (.onMessage ⟨m.sessionID endpoint, gen⟩ m) fun _ => serve m endpoints
      | none =>
        if m.isSystem = true then serve m endpoints
        else startDialog (m.sessionID endpoint) endpoint false >>= served m endpoints := by
  unfold serve
  rw [nodeReceivers, if_neg (not_not.mpr hbot)]
  refine congrArg (Prog.act _) (funext fun found => ?_)
  cases found with
  | some gen => rfl
  | none =>
    simp only [Prog.bind_eq, ret_bind, pure_eq, Option.map_none]
    split
    · rfl
    · rw [bind_bind]
      refine congrArg _ (funext fun r => ?_)
      cases r <;> rfl

/-- A message that is handled, and has been neither handed to the session `id` nor led to a
claim for it. -/
inductive Delivering (m : Message) (id : String) (s : Server) : Go Label → Prop where
  | lookup (hbot : endpoint.issuer = userTypeBot) (hdue : Due m id (endpoint :: endpoints)) :
      Delivering m id s (serve m (endpoint :: endpoints))
  | handing (hdue : c.id = id ∨ Due m id endpoints) :
      Delivering m id s (.act (.onMessage c m) fun _ => serve m endpoints)
  | starting (hnone : s.store.lookup (m.sessionID endpoint) = none)
      (hdue : m.sessionID endpoint = id ∨ Due m id endpoints) :
      Delivering m id s (startDialog (m.sessionID endpoint) endpoint false >>= served m endpoints)
  | claiming (hdue : m.sessionID endpoint = id ∨ Due m id endpoints) :
      Delivering m id s (.act (.touch (m.sessionID endpoint)) fun r => match r with
        | .error _ => .ret .listen | .ok none => serve m endpoints
        | .ok (some _) => .act (.dial (m.sessionID endpoint) endpoint false) fun gen =>
        .act (.consume ⟨m.sessionID endpoint, gen⟩) fun _ => serve m endpoints)
  | dialing {id' : String} {bot : Endpoint} {endpoints : List Endpoint}
      (hdue : Due m id endpoints) :
      Delivering m id s (.act (.dial id' bot false) fun gen =>
        .act (.consume ⟨id', gen⟩) fun _ => serve m endpoints)
  | consuming {c : Ptr} {endpoints : List Endpoint} (hdue : Due m id endpoints) :
      Delivering m id s (.act (.consume c) fun _ => serve m endpoints)

/-- The message is not handed to the session, no claim is made for it, and no claim for another
receiver ends the handling of the message with an error. -/
def Pending (id : String) (_ : ServerPool) (e : Concurrent.Event Thread Op) (s' : ServerPool) :
    Prop :=
  match e with
  | .act .listener (.onMessage c _) => c.id ≠ id
  | .act .listener (.touch id') => id' ≠ id ∧ s'.thread .listener ≠ .ret .listen
  | _ => True

section Delivery

variable {E : Type} {m : Message} {id : String} {s s' : ServerPool}
  {e : Concurrent.Event Thread Op}

/-- Receivers that are no bots are passed over. -/
theorem delivering_serve (server : Server) (hdue : Due m id endpoints) :
    Delivering m id server (serve m endpoints) := by
  induction endpoints with
  | nil =>
    obtain ⟨endpoint, hmem, -⟩ := hdue
    cases hmem
  | cons endpoint endpoints ih =>
    by_cases hbot : endpoint.issuer = userTypeBot
    · exact .lookup hbot hdue
    · have hskip : serve m (endpoint :: endpoints) = serve m endpoints := by
        unfold serve
        rw [nodeReceivers, if_pos hbot]
      rw [hskip]
      obtain ⟨bot, hmem, hissuer, hid⟩ := hdue
      rcases List.mem_cons.mp hmem with rfl | hmem
      · exact absurd hissuer hbot
      · exact ih ⟨bot, hmem, hissuer, hid⟩

theorem Delivering.ne_ret (h : Delivering m id server p) : p ≠ .ret l := by
  cases h with
  | lookup hbot _ =>
    rw [serve_bot hbot]
    nofun
  | _ => nofun

theorem due_cons (h : Due m id (endpoint :: endpoints)) :
    m.sessionID endpoint = id ∨ Due m id endpoints := by
  obtain ⟨bot, hmem, hissuer, hid⟩ := h
  rcases List.mem_cons.mp hmem with rfl | hmem
  · exact Or.inl hid
  · exact Or.inr ⟨bot, hmem, hissuer, hid⟩

/-- Nobody else stores a connection. -/
theorem Delivering.frame (h : Delivering m id server p)
    (hstore : ∀ id, server.store.lookup id = none → server'.store.lookup id = none) :
    Delivering m id server' p := by
  cases h with
  | lookup hbot hdue => exact .lookup hbot hdue
  | handing hdue => exact .handing hdue
  | starting hnone hdue => exact .starting (hstore _ hnone) hdue
  | claiming hdue => exact .claiming hdue
  | dialing hdue => exact .dialing hdue
  | consuming hdue => exact .consuming hdue

/-- The listener goes on with the message. -/
theorem Delivering.act
    (h : Delivering m id server (.act a k)) (hsystem : m.isSystem = false)
    (hexec : exec w a server = some (r, server'))
    (hhanded : ∀ c m', a = .onMessage c m' → c.id ≠ id)
    (hclaimed : ∀ id', a = .touch id' → id' ≠ id ∧ k r ≠ .ret .listen) :
    Delivering m id server' (k r) := by
  generalize hp : Prog.act a k = p at h
  cases h with
  | lookup hbot hdue =>
    rw [serve_bot hbot] at hp
    cases hp
    obtain ⟨rfl, rfl⟩ := hexec
    cases hfound : server.store.lookup _ with
    | some gen => exact .handing (due_cons hdue)
    | none =>
      simp only [hsystem, Bool.false_eq_true, if_false]
      exact .starting hfound (due_cons hdue)
  | handing hdue =>
    cases hp
    rcases hdue with hid | hdue
    · exact absurd hid (hhanded _ _ rfl)
    · exact delivering_serve _ hdue
  | starting hnone hdue =>
    cases hp
    obtain ⟨rfl, rfl⟩ := hexec
    rw [hnone]
    have hclaiming := Delivering.claiming (s := server) hdue
    convert hclaiming using 1
    refine congrArg (Prog.act _) (funext fun r => ?_)
    rcases r with e | _ | n <;> rfl
  | claiming hdue =>
    cases hp
    obtain ⟨hne, hends⟩ := hclaimed _ rfl
    have hdue := hdue.resolve_left hne
    rcases r with e | _ | n
    · exact absurd rfl hends
    · exact delivering_serve _ hdue
    · exact .dialing hdue
  | dialing hdue =>
    cases hp
    exact .consuming hdue
  | consuming hdue =>
    cases hp
    exact delivering_serve _ hdue

theorem Delivering.step (hstaged : Staged s) (h : Delivering m id s.shared (s.thread .listener))
    (hsystem : m.isSystem = false) (hstep : Step (dialogs E) s e s')
    (hpending : Pending id s e s') :
    Delivering m id s'.shared (s'.thread .listener) := by
  cases hstep with
  | @act t a k w r server ht hexec =>
    cases t with
    | listener =>
      rw [ht] at h
      refine h.act hsystem hexec ?_ ?_
      · rintro c m' rfl
        exact hpending
      · rintro id' rfl
        simpa [Pending] using hpending
    | runner c =>
      -- a dialog makes no connection, so a session that is not stored stays so
      refine h.frame fun id' hnone => ?_
      obtain ⟨st, hkeeping, -⟩ := hstaged.runner c
      rw [ht] at hkeeping
      obtain ⟨st', hruns, -⟩ := hkeeping r
      have hmade : server.made = s.shared.made := by
        refine exec_made_eq hexec ?_
        rintro _ _ _ rfl
        cases hruns with
        | work ha => cases ha
      have hgrows : s.shared.Grows server := by
        refine exec_grows hexec ?_
        rintro d rfl
        cases hruns with
        | work ha => cases ha
      rw [Option.eq_none_iff_forall_ne_some] at hnone ⊢
      intro gen hgen
      rcases hgrows.stored _ _ hgen with hold | ⟨-, hlt⟩
      · exact hnone gen hold
      · omega
  | @next t l w p ht hcode =>
    cases t with
    | listener => exact absurd ht h.ne_ret
    | runner c =>
      exact h
  | @env server henv =>
    refine h.frame fun id' hnone => ?_
    cases henv with
    | enterQueue | leaveQueue => exact hnone
    | expire =>
      rw [Option.eq_none_iff_forall_ne_some] at hnone ⊢
      exact fun gen hgen => hnone gen (lookup_of_lookup_erase hgen)

end Delivery

/-- In a spaced run, a message that is about to be handed to a dialog finds its run not ended.
And the handling of a customer's message does not end before each bot it is addressed to has
been handed the message, or been claimed. -/
theorem handover_of_spaced {E : Type} {ok : Prop} {s : ServerPool} {ended : Ptr → Prop}
    (h : Trace.Steps (Recorded (dialogs E) endings) Spaced
      (atStart Server.init, fun _ => False) ok (s, ended)) (hok : ok) :
    (∀ c m, Hands c m (s.thread .listener) → m.isSystem = false → ¬ ended c) ∧
    (∀ m endpoint, s.thread .listener = (do listen (.message m); return .listen) →
      m.threadID ≠ "" → m.sender.issuer ≠ userTypeBot → m.isSystem = false →
      endpoint ∈ m.receivers → endpoint.issuer = userTypeBot →
      ∀ ok' s', Trace.Steps (Step (dialogs E)) (Pending (m.sessionID endpoint)) s ok' s' → ok' →
        s'.thread .listener ≠ .ret .listen) := by
  have hstart : InTime (atStart Server.init, fun _ => False) := ⟨staged_atStart, fun _ _ _ _ => id⟩
  obtain ⟨hstaged, hintime⟩ : InTime (s, ended) := h.invariant hstart InTime.step hok
  refine ⟨hintime, fun m endpoint ht hthread hsender hsystem hmem hbot ok' s' hsteps hok' => ?_⟩
  have hserve : s.thread .listener = serve m m.receivers := by
    rw [ht, listen, if_neg hthread, nodeMessage, if_neg hsender, bind_bind]
    rfl
  let Good (s : ServerPool) : Prop :=
    Staged s ∧ Delivering m (m.sessionID endpoint) s.shared (s.thread .listener)
  have hgood : Good s' := by
    refine hsteps.invariant ⟨hstaged, ?_⟩ ?_ hok'
    · rw [hserve]
      exact delivering_serve _ ⟨endpoint, hmem, hbot, rfl⟩
    · rintro s e s' ⟨hs, hdelivering⟩ hstep hpending
      exact ⟨hs.step hstep, hdelivering.step hs hsystem hstep hpending⟩
  exact hgood.2.ne_ret

/-- The connection that the listener is about to hand a message to, and whether the message is
a system notice. -/
def handing : Go Label → Option (Ptr × Bool)
  | .act (.onMessage c m) _ => some (c, m.isSystem)
  | _ => none

theorem hands_of_handing (h : handing p = some (c, system)) :
    ∃ m, Hands c m p ∧ m.isSystem = system := by
  unfold handing at h
  split at h
  · rename_i c m k
    obtain ⟨rfl, rfl⟩ := Prod.mk.inj (Option.some.inj h)
    exact ⟨m, ⟨k, rfl⟩, rfl⟩
  · cases h

/-- A step that makes a connection terminating ends its run. -/
theorem endsRun_of_terminating {E : Type} (hstep : Step (dialogs E) s e s')
    (hs : (s.shared.conns c).state ≠ .terminating)
    (hs' : (s'.shared.conns c).state = .terminating) :
    EndsRun c s e s' := by
  cases hstep with
  | @act t a k w r m ht hexec =>
    have ha : a = .store c .terminating := by
      by_contra ha
      exact exec_not_terminating hexec hs ha hs'
    subst ha
    exact .terminated
  | next => exact absurd hs' hs
  | env henv => exact absurd ((Env.conns henv c).1.symm.trans hs') hs

/-- A connection that is terminating has been terminated on the way. -/
theorem ended_of_terminating {E : Type} {ok : Prop}
    {cond : ServerPool × (Ptr → Prop) → Concurrent.Event Thread Op →
      ServerPool × (Ptr → Prop) → Prop} {x : ServerPool × (Ptr → Prop)}
    (h : Trace.Steps (Recorded (dialogs E) endings) cond (atStart Server.init, fun _ => False) ok x)
    (hterm : (x.1.shared.conns c).state = .terminating) : x.2 c := by
  induction h with
  | refl => cases hterm
  | @tail _ x y e _ hstep ih =>
    rw [hstep.2]
    by_cases hbefore : (x.1.shared.conns c).state = .terminating
    · exact Or.inl (ih hbefore)
    · exact Or.inr (endsRun_of_terminating hstep.1 hbefore hterm)

theorem handing_of_hands (h : Hands c m p) : handing p = some (c, m.isSystem) := by
  obtain ⟨k, rfl⟩ := h
  rfl

/-- The first dialog of bot 1 -/
abbrev firstDialog : Ptr := ⟨"t.1", 0⟩

/-- The listener writes no state and hands nothing to the first dialog, whose goroutine is the only
one that moves, and not while something is handed over. -/
def inOrder (x : ServerPool × (Ptr → Prop)) (e : Concurrent.Event Thread Op)
    (y : ServerPool × (Ptr → Prop)) : Bool :=
  match e with
  | .act .listener (.store ..) | .env => false
  | .act .listener (.get _) => decide (handing (y.1.thread .listener) ≠ some (firstDialog, false))
  | .act (.runner d) (.store c _) => decide (d = firstDialog ∧ c = firstDialog) &&
      (handing (x.1.thread .listener)).isNone
  | .act (.runner d) _ | .next (.runner d) => decide (d = firstDialog) &&
      (handing (x.1.thread .listener)).isNone
  | _ => true

/-- Such steps end no run but that of the first dialog. -/
theorem spaced_of_inOrder {E : Type} {x y : ServerPool × (Ptr → Prop)}
    (hone : ∀ c, x.2 c → c = firstDialog) (h : Recorded (dialogs E) endings x e y)
    (hcheck : inOrder x e y = true) : (∀ c, y.2 c → c = firstDialog) ∧ Spaced x e y := by
  obtain ⟨hstep, hends⟩ := h
  -- whoever moves is the listener or the first dialog
  have hrunner : ∀ {c}, e.thread = some (.runner c) →
      c = firstDialog ∧ handing (x.1.thread .listener) = none := by
    intro c he
    cases e with
    | act t a =>
      cases Option.some.inj he
      cases a <;> simp_all [inOrder]
    | next t =>
      cases Option.some.inj he
      simpa [inOrder] using hcheck
    | env => cases he
  refine ⟨fun c => ?_, fun c m he hhands hsystem hdown => ?_, fun c m he hhands _ => ?_⟩
  · rw [hends]
    rintro (h | h)
    · exact hone c h
    · cases h with
      | returned => exact (hrunner rfl).1
      | left hs hs' =>
        by_cases hmoves : e.thread = some (.runner c)
        · exact (hrunner hmoves).1
        · rw [hstep.thread_eq hmoves] at hs'
          exact absurd hs' hs
      | @terminated t =>
        cases t with
        | listener => cases hcheck
        | runner d =>
          simp only [inOrder, Bool.and_eq_true, decide_eq_true_eq] at hcheck
          exact hcheck.1.2
  · subst he
    simp only [inOrder, decide_eq_true_eq] at hcheck
    exact hcheck (by rw [handing_of_hands hhands, hsystem, hone c hdown.1])
  · rw [handing_of_hands hhands] at hrunner
    cases (hrunner he).2

/-- The listener handles messages of the customer. -/
def greetings (moves : Nat) : List (Thread × Outside Unit) :=
  List.replicate moves (.listener, { helpful with event := .message hello })

/-- The dialog that the first message has started comes to its end before the second one. -/
def afterwards : List (Thread × Outside Unit) :=
  greetings 6 ++ List.replicate 18 (.runner firstDialog, helpful) ++ greetings 8

/-- The second message starts a new dialog, and the third one finds it. -/
theorem handover_of_spaced_afterwards :
    ∃ s ended m, Hands ⟨"t.1", 1⟩ m (s.thread .listener) ∧ m.isSystem = false ∧
      (∃ ok, Trace.Steps (Recorded (dialogs Unit) endings) Spaced
        (atStart Server.init, fun _ => False) ok (s, ended)) ∧
      ended firstDialog ∧ ¬ ended ⟨"t.1", 1⟩ := by
  obtain ⟨x, -, ⟨hhanding, hterm⟩, ok, hsteps, hok⟩ := Pool.reaches_record (dialogs Unit) endings
    (fun x e y => @id (inOrder x e y = true)) afterwards (atStart Server.init, fun _ => False)
    (fun x => handing (x.1.thread .listener) = some (⟨"t.1", 1⟩, false) ∧
      (x.1.shared.conns firstDialog).state = .terminating) (by decide +kernel)
  obtain ⟨m, hhands, hsystem⟩ := hands_of_handing hhanding
  obtain ⟨ok', hspaced, hok'⟩ := hsteps.imp (fun x => ∀ c, x.2 c → c = firstDialog) Spaced hok nofun
    spaced_of_inOrder
  exact ⟨x.1, x.2, m, hhands, hsystem, ⟨ok', hspaced⟩, ended_of_terminating hspaced hterm,
    (handover_of_spaced hspaced hok').1 _ m hhands hsystem⟩

/-- The client leaves, and then writes once more. -/
theorem handover_of_spaced_leaving :
    ∃ s ended m, Hands firstDialog m (s.thread .listener) ∧ m.isSystem = false ∧
      (∃ ok, Trace.Steps (Recorded (dialogs Unit) endings) Spaced
        (atStart Server.init, fun _ => False) ok (s, ended)) ∧ ended firstDialog := by
  obtain ⟨x, -, ⟨hhanding, hterm⟩, ok, hsteps⟩ := Trace.reaches
    (Pool.record_step (dialogs Unit) endings) Spaced (leaving ++ greetings 2)
    (atStart Server.init, fun _ => False)
    (fun x => handing (x.1.thread .listener) = some (firstDialog, false) ∧
      (x.1.shared.conns firstDialog).state = .terminating) (by decide +kernel)
  obtain ⟨m, hhands, hsystem⟩ := hands_of_handing hhanding
  exact ⟨x.1, x.2, m, hhands, hsystem, ⟨ok, hsteps⟩, ended_of_terminating hsteps hterm⟩

end FlowManager.Im
