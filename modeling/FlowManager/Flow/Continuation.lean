import FlowManager.Flow.Structured
import Mathlib.Logic.Relation

/-!
# The static continuation of a place

A place in the program determines what a structured flow does from there on: the items up
to the end of the block, then what follows the construct around them, and so on outwards,
with a `while` at the end of its `do` block checked again. `Cont` is a machine that runs
exactly this: its whole control state is one place.

`Route` keeps one position per node instead. It is `OnTrack` when every enclosing block
stands right behind the construct it is waiting for, and every enclosing loop is in the
middle of a cycle.

- `LoopShape`, `loopShape_parse`: where the parser puts a `do` block and the copy of its
  `while`.
- `Cont`, `Cont.run`: the machine.
- `lined_walk`, `onTrack_goto`: when exactly a jump leaves the flow on track.
-/

namespace FlowManager

open Flow Function

/-! ## The shape of loops -/

/-- The `do` block of loop `v` hangs from a `while` of that loop, and the only other
`while` of that loop ends the block. -/
structure Program.LoopShape (i : Program) (v : Nat) : Prop where
  owner : ∃ q r, (i.nodes (i.whiles v).do_).parent = some q ∧
    i.request ⟨q, (i.nodes (i.whiles v).do_).idx⟩ = some r ∧ r.args = .loop v
  last : ∀ j r, i.request ⟨(i.whiles v).do_, j⟩ = some r → r.args = .loop v →
    j + 1 = i.getLength (i.whiles v).do_

namespace Program

variable {P : Program} {n : Nat}

theorem Holds.args_eq (h : P.Holds n j app args) (hr : P.request ⟨n, j⟩ = some r) :
    r.args = args := by
  obtain ⟨limiter, hreq, -⟩ := h
  rw [hr] at hreq
  cases hreq
  rfl

/-- The requests of a block belong to loops of the block. -/
theorem le_of_loop_at : ∀ (b : Block) {j k : Nat}, b.At P n j k → ∀ {i v : Nat}
    {r : ApplicationRequest}, j ≤ i → i < j + b.width → P.request ⟨n, i⟩ = some r →
    r.args = .loop v → k ≤ v
  | .nil, j, _, _, i, _, _, hlo, hhi, _, _ => by
    simp only [Block.width] at hhi
    omega
  | .cons item rest, j, k, hat, i, v, r, hlo, hhi, hr, hargs => by
    simp only [Block.width] at hhi
    rcases Nat.lt_or_ge i (j + item.width) with hi | hi
    · have hij : i = j := by
        cases item <;> simp only [Item.width] at hi <;> omega
      subst hij
      have hitem := hat.1
      cases item with
      | plain app | brk app => rw [hitem.args_eq hr] at hargs; cases hargs
      | cond app ex t e =>
        obtain ⟨t', e', hholds, -⟩ := hitem
        rw [hholds.args_eq hr] at hargs
        cases hargs
      | loop app c m body | bareLoop app =>
        obtain ⟨d, hholds, -⟩ := hitem
        rw [hholds.args_eq hr] at hargs
        cases hargs
        exact le_refl _
      | switch app text cases =>
        obtain ⟨l, hholds, -⟩ := hitem
        rw [hholds.args_eq hr] at hargs
        cases hargs
      | function app | trigger app | dropped app => simp only [Item.width] at hi; omega
    · exact le_trans (Nat.le_add_right k item.loops)
        (le_of_loop_at rest hat.2 hi (by omega) hr hargs)

/-- A `while` outside its `do` block is the owner of that block. -/
theorem isBlock_of_loop (hwf : P.WellFormed) (hp : p.node < P.nodeCount) (hr : P.request p = some r)
    (hargs : r.args = .loop v) (hne : p.node ≠ (P.whiles v).do_) :
    P.IsBlock (P.whiles v).do_ p := by
  have hok := hwf.args p r hp hr
  rw [hargs] at hok
  rcases hok.2.2 with he | he
  · exact he.block
  · exact absurd he.block.symm hne

/-- The loop of a `while` outside its block. -/
theorem loopShape_of_entry (hwf : P.WellFormed) (hn : n < P.nodeCount)
    (hholds : P.Holds n j app (.loop k)) (hdo : (P.whiles k).do_ = d) (hlt : n < d)
    (hlast : ∀ i r, P.request ⟨d, i⟩ = some r → r.args = .loop k → i + 1 = P.getLength d) :
    P.LoopShape k ∧ d < P.nodeCount := by
  obtain ⟨limiter, hr, -⟩ := hholds
  have hblock := isBlock_of_loop hwf (p := ⟨n, j⟩) hn hr rfl
    (show n ≠ (P.whiles k).do_ by omega)
  refine ⟨⟨⟨n, ⟨app, .loop k, limiter⟩, hblock.parent, ?_, rfl⟩, ?_⟩, hdo ▸ hblock.lt⟩
  · rw [hblock.idx]
    exact hr
  · rw [hdo]
    exact hlast

mutual

theorem loopShape_block (hwf : P.WellFormed) : ∀ (b : Block) {n j k : Nat}, b.At P n j k →
    n < P.nodeCount → ∀ v, k ≤ v → v < k + b.loops → P.LoopShape v
  | .nil, _, _, k, _, _, v, hlo, hhi => by
    simp only [Block.loops] at hhi
    omega
  | .cons item rest, n, j, k, hat, hn, v, hlo, hhi => by
    simp only [Block.loops] at hhi
    rcases Nat.lt_or_ge v (k + item.loops) with hv | hv
    · exact loopShape_item hwf item hat.1 hn v hlo hv
    · exact loopShape_block hwf rest hat.2 hn v hv (by omega)

theorem loopShape_item (hwf : P.WellFormed) : ∀ (item : Item) {n j k : Nat}, item.At P n j k →
    n < P.nodeCount → ∀ v, k ≤ v → v < k + item.loops → P.LoopShape v
  | .cond app ex then_ else_, n, j, k, hat, hn, v, hlo, hhi => by
    simp only [Item.loops] at hhi
    obtain ⟨t, e, ⟨limiter, hr, -⟩, -, hta, -, hea⟩ := hat
    have hok := hwf.args ⟨n, j⟩ _ hn hr
    rcases Nat.lt_or_ge v (k + then_.loops) with hv | hv
    · exact loopShape_block hwf then_ hta hok.1.lt v hlo hv
    · exact loopShape_block hwf else_ hea hok.2.lt v hv (by omega)
  | .loop app c m body, n, j, k, hat, hn, v, hlo, hhi => by
    simp only [Item.loops] at hhi
    obtain ⟨d, hholds, hwhile, hchild, hbody, -⟩ := hat
    obtain ⟨hshape, hd⟩ := loopShape_of_entry hwf hn hholds (by rw [hwhile]) hchild.lt
      (fun i r hr hargs => by
        have hi := request_lt hr
        rw [show (⟨d, i⟩ : ReqPtr).node = d from rfl, hchild.length] at hi
        rw [hchild.length]
        by_contra hne
        -- the items of the body belong to younger loops
        have hle := le_of_loop_at body hbody (Nat.zero_le i)
          (show i < 0 + body.width by simp only at hi; omega) hr hargs
        omega)
    rcases Nat.eq_or_lt_of_le hlo with rfl | hlt
    · exact hshape
    · exact loopShape_block hwf body hbody hd v hlt (by omega)
  | .bareLoop app, n, j, k, hat, hn, v, hlo, hhi => by
    simp only [Item.loops] at hhi
    obtain ⟨d, hholds, hwhile, hchild⟩ := hat
    have hv : v = k := by omega
    subst hv
    refine (loopShape_of_entry hwf hn hholds (by rw [hwhile]; rfl) hchild.lt
      (fun i r hr hargs => ?_)).1
    have hi := request_lt hr
    rw [show (⟨d, i⟩ : ReqPtr).node = d from rfl, hchild.length] at hi
    exact absurd hi (Nat.not_lt_zero _)
  | .switch app text cases, n, j, k, hat, hn, v, hlo, hhi => by
    obtain ⟨l, ⟨limiter, hr, -⟩, hcases⟩ := hat
    exact loopShape_cases hwf cases hcases (fun c hc => (hwf.args ⟨n, j⟩ _ hn hr c hc).lt) v hlo hhi
  | .plain _, _, _, _, _, _, v, hlo, hhi => by simp only [Item.loops] at hhi; omega
  | .brk _, _, _, _, _, _, v, hlo, hhi => by simp only [Item.loops] at hhi; omega
  | .function _, _, _, _, _, _, v, hlo, hhi => by simp only [Item.loops] at hhi; omega
  | .trigger _, _, _, _, _, _, v, hlo, hhi => by simp only [Item.loops] at hhi; omega
  | .dropped _, _, _, _, _, _, v, hlo, hhi => by simp only [Item.loops] at hhi; omega

theorem loopShape_cases (hwf : P.WellFormed) : ∀ (cases : Cases) {n k : Nat}
    {l : List (String × Nat)}, cases.At P n k l → (∀ c ∈ l, c.2 < P.nodeCount) →
    ∀ v, k ≤ v → v < k + cases.loops → P.LoopShape v
  | .nil, _, k, _, _, _, v, hlo, hhi => by
    simp only [Cases.loops] at hhi
    omega
  | .cons name block rest, n, k, l, hat, hl, v, hlo, hhi => by
    simp only [Cases.loops] at hhi
    obtain ⟨c, l', rfl, -, hblock, hrest⟩ := hat
    rcases Nat.lt_or_ge v (k + block.loops) with hv | hv
    · exact loopShape_block hwf block hblock (hl (name, c) (List.mem_cons_self ..)) v hlo hv
    · exact loopShape_cases hwf rest hrest (fun c' hc' => hl c' (List.mem_cons_of_mem _ hc')) v hv
        (by omega)

end

/-- Every loop of a parsed program has this shape. -/
theorem loopShape_parse (functions triggers : List (String × Applications))
    (schema : Applications) (v : Nat)
    (hv : v < (parseFlowArray (Program.empty functions triggers) 0 schema).whileCount) :
    (parseFlowArray (Program.empty functions triggers) 0 schema).LoopShape v := by
  have hwf := wellFormed_parse functions triggers schema
  refine loopShape_block hwf (decode schema) (at_parse functions triggers schema).1 hwf.root_lt v
    (Nat.zero_le v) ?_
  rw [parseFlowArray_eq_build, whileCount_block] at hv
  exact hv

end Program

/-! ## The static continuation -/

/-- The next request from index `j` of node `n` on, if each enclosing block goes on right
behind the construct that owns the block just left. -/
def Program.fetch (i : Program) (n j : Nat) : Option ReqPtr :=
  if j < i.getLength n then some ⟨n, j⟩
  else
    match (i.nodes n).parent with
    | none => none
    | some q => if q < n then i.fetch q ((i.nodes n).idx + 1) else none
termination_by n

section Machine

variable {E : Type} (w : World E)

/-- Where a flow goes on after the request `r` at `p` if nothing else matters. A `while`
outside its `do` block enters it; the copy at the end of the block checks the condition. -/
def resume (e : E) (i : Program) (p : ReqPtr) (r : ApplicationRequest) : ReqPtr :=
  match r.args with
  | .condition expression then_ else_ =>
    match w.condition e expression with
    | some true => ⟨then_, 0⟩
    | some false => ⟨else_, 0⟩
    | none => ⟨p.node, p.index + 1⟩
  | .switch text cases =>
    match lookupCase cases (w.parseText e text) with
    | some n => ⟨n, 0⟩
    | none =>
      match lookupCase cases "default" with
      | some n => ⟨n, 0⟩
      | none => ⟨p.node, p.index + 1⟩
  | .loop v =>
    let d := (i.whiles v).do_
    if 2 ≤ i.getLength d ∧ (p.node ≠ d ∨ w.check e (i.whiles v).condition = true) then ⟨d, 0⟩
    else ⟨p.node, p.index + 1⟩
  | .brk => ⟨p.node, p.index + 1⟩
  | .raw =>
    if r.app.name = "goto" then
      match (w.decodeTag e r.app.args).bind i.lookupTag with
      | some t => ⟨t.parent, t.idx⟩
      | none => ⟨p.node, p.index + 1⟩
    else ⟨p.node, p.index + 1⟩

/-- A continuation that consists of nothing but a place in the program. -/
structure Cont (E : Type) where
  pc : ReqPtr
  env : E
  trace : List ReqPtr

/-- The machine dispatches one request, or stays where it is when there is none. -/
def Cont.step (i : Program) (c : Cont E) : Cont E :=
  match i.fetch c.pc.node c.pc.index with
  | none => c
  | some p =>
    match i.request p with
    | none => c
    | some r => ⟨resume w c.env i p r, w.next c.env r.app, c.trace ++ [p]⟩

/-- `m` steps of the machine. -/
def Cont.run (i : Program) (m : Nat) (c : Cont E) : Cont E := (Cont.step w i)^[m] c

end Machine

/-! ## Flows on track -/

/-- `q` is the node `n` or one around it. -/
def Program.Around (i : Program) : Nat → Nat → Prop :=
  Relation.ReflTransGen fun a b => (i.nodes a).parent = some b

/-- Every node around `m` stands right behind the construct that leads to `m`. -/
def Program.Chain (i : Program) (pos : Nat → Int) (m : Nat) : Prop :=
  ∀ a q, i.Around m a → (i.nodes a).parent = some q → pos q = (i.nodes a).idx + 1

/-- The saved positions and the loops around node `n` are as if the flow had come to `n`
from outside, block by block. -/
structure OnTrack (f : Flow) (n : Nat) : Prop where
  chain : f.prog.Chain f.position n
  cycling : ∀ a v, f.prog.Around n a → v < f.prog.whileCount → (f.prog.whiles v).do_ = a →
    f.step v ≠ 0

/-- With the positions `pos`, the nodes around `m` either stand right behind the construct
that leads to `m`, or, as long as `walking`, are at their start and have that construct as
their last. -/
inductive Lined (i : Program) (pos : Nat → Int) : Bool → Nat → Prop where
  | root {walking : Bool} {m : Nat} (hparent : (i.nodes m).parent = none) : Lined i pos walking m
  | behind {walking : Bool} {m q : Nat} (hparent : (i.nodes m).parent = some q)
      (hpos : pos q = (i.nodes m).idx + 1) (h : Lined i pos false q) : Lined i pos walking m
  | last (hparent : (i.nodes m).parent = some q) (hgrand : (i.nodes q).parent = some q')
      (hzero : pos q = 0) (hlast : (i.nodes m).idx + 1 = i.getLength q) (h : Lined i pos true q) :
      Lined i pos true m

/-- What a jump to `t` must find: the nodes around the parent of the target's node in line,
with the issuing node counted as being at its start, and all loops around the target in the
middle of a cycle. -/
structure Undisturbed (f : Flow) (t : Tag) : Prop where
  lined : ∀ n a, f.currentNode = some n → (f.prog.nodes t.parent).parent = some a →
    Lined f.prog (update f.position n 0) true a
  cycling : ∀ a v, f.prog.Around t.parent a → v < f.prog.whileCount →
    (f.prog.whiles v).do_ = a → f.step v ≠ 0

namespace Program

variable {P : Program} {pos pos' : Nat → Int} {n m q : Nat}

theorem Around.refl (P : Program) (n : Nat) : P.Around n n := Relation.ReflTransGen.refl

theorem Around.up (hparent : (P.nodes n).parent = some q) (h : P.Around q a) :
    P.Around n a :=
  Relation.ReflTransGen.head hparent h

/-- A node around `n` is `n` or around its parent. -/
theorem Around.cases {a : Nat} (h : P.Around n a) :
    a = n ∨ ∃ q, (P.nodes n).parent = some q ∧ P.Around q a := by
  rcases Relation.ReflTransGen.cases_head h with heq | ⟨q, hq, hrest⟩
  · exact Or.inl heq.symm
  · exact Or.inr ⟨q, hq, hrest⟩

/-- Nodes around `n` are older. -/
theorem Around.le (hwf : P.WellFormed) (h : P.Around n a) (hn : n < P.nodeCount) : a ≤ n := by
  induction h with
  | refl => exact le_refl n
  | tail _ hparent ih => exact le_trans (le_of_lt (hwf.parent_lt (by omega) hparent)) ih

theorem chain_root (hparent : (P.nodes m).parent = none) : P.Chain pos m := by
  intro a q ha hq
  rcases ha.cases with rfl | ⟨q', hq', -⟩
  · rw [hparent] at hq
    cases hq
  · rw [hparent] at hq'
    cases hq'

theorem chain_iff (hparent : (P.nodes m).parent = some q) :
    P.Chain pos m ↔ pos q = (P.nodes m).idx + 1 ∧ P.Chain pos q := by
  constructor
  · intro h
    exact ⟨h m q (Around.refl P m) hparent, fun a q' ha => h a q' (ha.up hparent)⟩
  · rintro ⟨hq, h⟩ a q' ha hq'
    rcases ha.cases with rfl | ⟨p, hp, ha⟩
    · cases Option.some.inj (hparent.symm.trans hq')
      exact hq
    · cases Option.some.inj (hparent.symm.trans hp)
      exact h a q' ha hq'

/-- Only the positions of older nodes count. -/
theorem Chain.congr (hwf : P.WellFormed) (hm : m < P.nodeCount) (h : P.Chain pos m)
    (hpos : ∀ x, x < m → pos' x = pos x) : P.Chain pos' m := by
  intro a q ha hq
  have hle := ha.le hwf hm
  have hlt := hwf.parent_lt (by omega) hq
  rw [hpos q (by omega)]
  exact h a q ha hq

end Program

section Lined

variable {P : Program} {pos pos' : Nat → Int} {f f' g : Flow} {n m q : Nat}

theorem Lined.congr (hwf : P.WellFormed) {walking : Bool} (h : Lined P pos walking m) :
    m < P.nodeCount → (∀ x, x < m → pos' x = pos x) → Lined P pos' walking m := by
  induction h with
  | root hparent => exact fun _ _ => Lined.root hparent
  | behind hparent hpos _ ih =>
    intro hm heq
    have hlt := hwf.parent_lt hm hparent
    exact Lined.behind hparent (by rw [heq _ hlt, hpos])
      (ih (by omega) fun x hx => heq x (by omega))
  | last hparent hgrand hzero hlast _ ih =>
    intro hm heq
    have hlt := hwf.parent_lt hm hparent
    exact Lined.last hparent hgrand (by rw [heq _ hlt, hzero]) hlast
      (ih (by omega) fun x hx => heq x (by omega))

/-- Where nothing is completed, the nodes must be behind the construct already. -/
theorem chain_iff_lined (hwf : P.WellFormed) :
    ∀ m, m < P.nodeCount → (P.Chain pos m ↔ Lined P pos false m) := by
  intro m
  induction m using Nat.strong_induction_on with
  | _ m ih =>
    intro hm
    cases hparent : (P.nodes m).parent with
    | none => exact ⟨fun _ => Lined.root hparent, fun _ => Program.chain_root hparent⟩
    | some q =>
      have hlt := hwf.parent_lt hm hparent
      rw [Program.chain_iff hparent, ih q hlt (by omega)]
      constructor
      · rintro ⟨hq, h⟩
        exact Lined.behind hparent hq h
      · intro h
        cases h with
        | root hroot =>
          rw [hparent] at hroot
          cases hroot
        | behind hparent' hpos h =>
          cases Option.some.inj (hparent.symm.trans hparent')
          exact ⟨hpos, h⟩

/-- When exactly `CompleteTreeTraversal` leaves the nodes around `m` right behind their
constructs. -/
theorem lined_walk (h : Completes f q f') : f.Safe → m < f.prog.nodeCount →
    (f.prog.nodes m).parent = some q →
    (f.prog.Chain f'.position m ↔ Lined f.prog f.position true m) := by
  induction h generalizing m with
  | @stop f q hstop =>
    intro hf hm hparent
    have hq := hf.wf.parent_lt hm hparent
    rw [Program.chain_iff hparent, chain_iff_lined hf.wf q (by omega)]
    constructor
    · rintro ⟨hpos, h⟩
      exact Lined.behind hparent hpos h
    · intro h
      cases h with
      | root hroot =>
        rw [hparent] at hroot
        cases hroot
      | behind hparent' hpos h =>
        cases Option.some.inj (hparent.symm.trans hparent')
        exact ⟨hpos, h⟩
      | last hparent' hgrand hzero =>
        -- the walk has stopped at a node that it would have had to complete
        cases Option.some.inj (hparent.symm.trans hparent')
        rcases hstop with hroot | hne
        · rw [hroot] at hgrand
          cases hgrand
        · exact absurd hzero hne
  | @up f f' q p hgrand hzero hnext ih =>
    intro hf hm hparent
    have hq := hf.wf.parent_lt hm hparent
    have hp := hf.wf.parent_lt (show q < f.prog.nodeCount by omega) hgrand
    have hset : (f.setPosition q (f.prog.getLength q)).Safe :=
      hf.setPosition (Int.natCast_nonneg _) (le_refl _)
    have hlen : f'.position q = f.prog.getLength q := by
      rw [hnext.position_of_gt hset (show p < f.prog.nodeCount by omega) q hp]
      exact update_self _ _ _
    have hbelow : ∀ x, x < q →
        (f.setPosition q (f.prog.getLength q)).position x = f.position x := fun x hx =>
      update_of_ne (Nat.ne_of_lt hx) _ _
    have hih := ih hset (show q < f.prog.nodeCount by omega) hgrand
    change f.prog.Chain f'.position q ↔
      Lined f.prog (f.setPosition q (f.prog.getLength q)).position true q at hih
    rw [Program.chain_iff hparent, hih, hlen]
    constructor
    · rintro ⟨hidx, h⟩
      exact Lined.last hparent hgrand hzero (by omega)
        (h.congr hf.wf (by omega) fun x hx => (hbelow x hx).symm)
    · intro h
      cases h with
      | root hroot =>
        rw [hparent] at hroot
        cases hroot
      | behind hparent' hpos =>
        cases Option.some.inj (hparent.symm.trans hparent')
        omega
      | last hparent' _ _ hlast h =>
        cases Option.some.inj (hparent.symm.trans hparent')
        exact ⟨by omega, h.congr hf.wf (by omega) hbelow⟩

/-- The positions that a jump leaves around its target. -/
theorem chain_repairs {t : Tag} (hf : f.Safe) (hlt : t.parent < f.prog.nodeCount)
    (hidx : t.idx < f.prog.getLength t.parent) (h : Repairs (f.jump n t) t.parent g) :
    f.prog.Chain g.position t.parent ↔ ∀ a, (f.prog.nodes t.parent).parent = some a →
      Lined f.prog (update f.position n 0) true a := by
  have hjump : (f.jump n t).Safe := hf.jump hlt hidx
  cases h with
  | root hroot =>
    change (f.prog.nodes t.parent).parent = none at hroot
    refine iff_of_true (Program.chain_root hroot) fun a ha => ?_
    rw [hroot] at ha
    cases ha
  | @top p hparent hroot =>
    change (f.prog.nodes t.parent).parent = some p at hparent
    change (f.prog.nodes p).parent = none at hroot
    refine iff_of_true ?_ fun a ha => ?_
    · rw [Program.chain_iff hparent]
      exact ⟨update_self _ _ _, Program.chain_root hroot⟩
    · cases Option.some.inj (hparent.symm.trans ha)
      exact Lined.root hroot
  | @climb p q _ hparent hgrand hcomplete =>
    have hset := hjump.setBehind hlt hparent
    change (f.prog.nodes t.parent).parent = some p at hparent
    change (f.prog.nodes p).parent = some q at hgrand
    have hp := hf.wf.parent_lt hlt hparent
    have hq := hf.wf.parent_lt (show p < f.prog.nodeCount by omega) hgrand
    have hpos : g.position p = (f.prog.nodes t.parent).idx + 1 := by
      rw [hcomplete.position_of_gt hset (show q < f.prog.nodeCount by omega) p hq]
      exact update_self _ _ _
    have hwalk := lined_walk hcomplete hset (show p < f.prog.nodeCount by omega) hgrand
    -- below `p` the jump has only reset the issuing node
    have hbelow : ∀ x, x < p →
        ((f.jump n t).setPosition p ((f.prog.nodes t.parent).idx + 1)).position x
          = update f.position n 0 x := fun x hx => by
      rw [show ((f.jump n t).setPosition p ((f.prog.nodes t.parent).idx + 1)).position x
        = (f.jump n t).position x from update_of_ne (by omega) _ _]
      exact update_of_ne (by omega) _ _
    rw [Program.chain_iff hparent]
    constructor
    · rintro ⟨-, h⟩ a ha
      cases Option.some.inj (hparent.symm.trans ha)
      exact (hwalk.mp h).congr hf.wf (by omega) fun x hx => (hbelow x hx).symm
    · intro h
      exact ⟨hpos, hwalk.mpr ((h p hparent).congr hf.wf (by omega) hbelow)⟩

/-- When exactly a jump leaves the flow on track. -/
theorem onTrack_goto (hf : f.Safe) (htag : f.prog.lookupTag tag = some t)
    (h : GotoSpec f tag (true, g)) : OnTrack g t.parent ↔ Undisturbed f t := by
  cases h with
  | @jumped t' n f₁ _ htag' hcur hrepairs =>
    cases Option.some.inj (htag.symm.trans htag')
    obtain ⟨hlt, hidx⟩ := lookupTag_ok hf htag
    have hchain := chain_repairs hf hlt hidx hrepairs
    have hprog : f₁.prog = f.prog := by
      rw [hrepairs.eq_position]
      rfl
    have hstep : f₁.step = f.step := by
      rw [hrepairs.eq_position]
      rfl
    constructor
    · rintro ⟨hc, hcycling⟩
      change f₁.prog.Chain f₁.position t.parent at hc
      change ∀ a v, f₁.prog.Around t.parent a → _ at hcycling
      rw [hprog] at hc
      refine ⟨fun m a hm => ?_, ?_⟩
      · cases Option.some.inj (hcur.symm.trans hm)
        exact hchain.mp hc a
      · rw [← hprog, ← hstep]
        exact hcycling
    · rintro ⟨hlined, hcycling⟩
      refine ⟨?_, ?_⟩
      · show f₁.prog.Chain f₁.position t.parent
        rw [hprog]
        exact hchain.mpr (hlined n · hcur)
      · show ∀ a v, f₁.prog.Around t.parent a → v < f₁.prog.whileCount →
          (f₁.prog.whiles v).do_ = a → f₁.step v ≠ 0
        rw [hprog, hstep]
        exact hcycling

end Lined

end FlowManager
