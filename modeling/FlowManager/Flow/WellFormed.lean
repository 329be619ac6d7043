import FlowManager.Flow.Parse
import Mathlib.Data.Set.Insert

/-!
# What parsing guarantees about the heap

The parser takes the index of a block before it adds the request that owns it, and
drops some items in between. `Program.Building` is the invariant of a heap under
construction: a set of *pending* nodes, which have been allocated for a request that
is not attached yet, and a set of pending loops, which no request refers to yet.
Every primitive of the parser keeps it (`Building.newNode`, `Building.add`, …), so
by induction over the tree of the schema it holds, with nothing pending, when
parsing ends (`wellFormed_parse`).

The well-formed heap is what the rest of the development rests on:

- parents are older than their blocks, so every walk upwards ends;
- a block's `idx` is the index of the request that owns it;
- a `while` occurs in its enclosing block, preceded by its `originalParent`, and at
  the end of its own `do` block, and nowhere else;
- a tag points at a request.
-/

namespace FlowManager

open Function

/-- The pointer to the request before this one, nil at the start of a block. -/
def ReqPtr.prev (p : ReqPtr) : Option ReqPtr :=
  if p.index = 0 then none else some ⟨p.node, p.index - 1⟩

namespace Program

variable {i i' : Program} {P : Set Nat} {W : Set Nat} {root n : Nat}

/-- Node `c` is a block of the request at `p`. -/
structure IsBlock (i : Program) (c : Nat) (p : ReqPtr) : Prop where
  lt : c < i.nodeCount
  node_lt : p.node < c
  parent : (i.nodes c).parent = some p.node
  idx : (i.nodes c).idx = p.index

/-- The occurrence of a `while` in its enclosing block. -/
structure LoopEntry (i : Program) (w : Nat) (p : ReqPtr) : Prop where
  block : i.IsBlock (i.whiles w).do_ p
  original : i.getLength (i.whiles w).do_ ≠ 0 → (i.whiles w).originalParent = p.prev

/-- The copy of a `while` that ends its `do` block. -/
structure LoopEnd (i : Program) (w : Nat) (p : ReqPtr) : Prop where
  block : (i.whiles w).do_ = p.node
  original : ∀ q, (i.whiles w).originalParent = some q → q.node ≠ p.node

/-- The blocks and loops that the arguments at `p` refer to are where they should
be. -/
def ArgsOk (i : Program) (W : Set Nat) (p : ReqPtr) : Args → Prop
  | .condition _ t e => i.IsBlock t p ∧ i.IsBlock e p
  | .switch _ cases => ∀ c ∈ cases, i.IsBlock c.2 p
  | .loop w => w < i.whileCount ∧ w ∉ W ∧ (i.LoopEntry w p ∨ i.LoopEnd w p)
  | .raw => True
  | .brk => True

/-- The arguments own the block `c`. -/
def Owns (i : Program) (c : Nat) : Args → Prop
  | .condition _ t e => c = t ∨ c = e
  | .switch _ cases => ∃ name, (name, c) ∈ cases
  | .loop w => (i.whiles w).do_ = c
  | .raw => False
  | .brk => False

/-- A heap under construction, with pending nodes `P` and pending loops `W`. -/
structure Building (i : Program) (P : Set Nat) (W : Set Nat) : Prop where
  root_lt : 0 < i.nodeCount
  root_parent : (i.nodes 0).parent = none
  parent : ∀ n, 0 < n → n < i.nodeCount → ∃ p, (i.nodes n).parent = some p ∧ p < n
  pending_lt : ∀ n ∈ P, 0 < n ∧ n < i.nodeCount
  pending_idx : ∀ n ∈ P, ∀ p, (i.nodes n).parent = some p → (i.nodes n).idx = i.getLength p
  owned : ∀ n, n < i.nodeCount → n ∉ P → ∀ p, (i.nodes n).parent = some p →
    ∃ r, i.request ⟨p, (i.nodes n).idx⟩ = some r ∧ i.Owns n r.args
  args : ∀ p r, p.node < i.nodeCount → i.request p = some r → i.ArgsOk W p r.args
  tags : ∀ e ∈ i.tags, e.2.parent < i.nodeCount ∧ e.2.idx < i.getLength e.2.parent
  loops : ∀ w ∈ W, w < i.whileCount

/-- A node is younger than its parent. -/
theorem Building.parent_lt (hb : i.Building P W) (hn : n < i.nodeCount)
    (hp : (i.nodes n).parent = some p) : p < n := by
  rcases Nat.eq_zero_or_pos n with rfl | hpos
  · rw [hb.root_parent] at hp
    cases hp
  · obtain ⟨q, hq, hqn⟩ := hb.parent n hpos hn
    rwa [Option.some.inj (hp.symm.trans hq)]

/-- The heap after parsing. -/
def WellFormed (i : Program) : Prop := i.Building ∅ ∅

/-- What parsing into `root` leaves alone: every older node except `root`, which
only gets more children, and every older loop. -/
structure Frame (i i' : Program) (root : Nat) : Prop where
  nodeCount_le : i.nodeCount ≤ i'.nodeCount
  whileCount_le : i.whileCount ≤ i'.whileCount
  node : ∀ n, n < i.nodeCount → n ≠ root → i'.nodes n = i.nodes n
  parent : (i'.nodes root).parent = (i.nodes root).parent
  idx : (i'.nodes root).idx = (i.nodes root).idx
  children : (i.nodes root).children <+: (i'.nodes root).children
  whiles : ∀ w, w < i.whileCount → i'.whiles w = i.whiles w

theorem Frame.refl (i : Program) (root : Nat) : Frame i i root :=
  ⟨le_refl _, le_refl _, fun _ _ _ => rfl, rfl, rfl, List.prefix_refl _, fun _ _ => rfl⟩

theorem Frame.trans (h₁ : Frame i₁ i₂ root) (h₂ : Frame i₂ i₃ root) :
    Frame i₁ i₃ root where
  nodeCount_le := le_trans h₁.nodeCount_le h₂.nodeCount_le
  whileCount_le := le_trans h₁.whileCount_le h₂.whileCount_le
  node n hn hne := (h₂.node n (lt_of_lt_of_le hn h₁.nodeCount_le) hne).trans (h₁.node n hn hne)
  parent := h₂.parent.trans h₁.parent
  idx := h₂.idx.trans h₁.idx
  children := h₁.children.trans h₂.children
  whiles w hw := (h₂.whiles w (lt_of_lt_of_le hw h₁.whileCount_le)).trans (h₁.whiles w hw)

/-- The parent of an older node stays the same. -/
theorem Frame.parent_of_lt (h : Frame i i' root) (hn : n < i.nodeCount) :
    (i'.nodes n).parent = (i.nodes n).parent := by
  by_cases hne : n = root
  · rw [hne, h.parent]
  · rw [h.node n hn hne]

/-- All of `i` is still there, unchanged. -/
structure Keeps (i i' : Program) : Prop where
  nodeCount_le : i.nodeCount ≤ i'.nodeCount
  whileCount_le : i.whileCount ≤ i'.whileCount
  node : ∀ n, n < i.nodeCount → i'.nodes n = i.nodes n
  whiles : ∀ w, w < i.whileCount → i'.whiles w = i.whiles w

theorem Keeps.refl (i : Program) : Keeps i i :=
  ⟨le_refl _, le_refl _, fun _ _ => rfl, fun _ _ => rfl⟩

theorem Keeps.trans (h₁ : Keeps i₁ i₂) (h₂ : Keeps i₂ i₃) : Keeps i₁ i₃ where
  nodeCount_le := le_trans h₁.nodeCount_le h₂.nodeCount_le
  whileCount_le := le_trans h₁.whileCount_le h₂.whileCount_le
  node n hn := (h₂.node n (lt_of_lt_of_le hn h₁.nodeCount_le)).trans (h₁.node n hn)
  whiles w hw := (h₂.whiles w (lt_of_lt_of_le hw h₁.whileCount_le)).trans (h₁.whiles w hw)

/-- Parsing into a block that is younger than `i₀` leaves all of `i₀` alone. -/
theorem Keeps.of_frame {child : Nat} (hk : Keeps i₀ i) (h : Frame i i' child)
    (hchild : i₀.nodeCount ≤ child) : Keeps i₀ i' where
  nodeCount_le := le_trans hk.nodeCount_le h.nodeCount_le
  whileCount_le := le_trans hk.whileCount_le h.whileCount_le
  node n hn := by
    rw [h.node n (lt_of_lt_of_le hn hk.nodeCount_le) (by omega), hk.node n hn]
  whiles w hw := by
    rw [h.whiles w (lt_of_lt_of_le hw hk.whileCount_le), hk.whiles w hw]

theorem Keeps.frame (hk : Keeps i i') (hroot : root < i.nodeCount) : Frame i i' root := by
  have hnode := hk.node root hroot
  refine ⟨hk.nodeCount_le, hk.whileCount_le, fun n hn _ => hk.node n hn, by rw [hnode],
    by rw [hnode], by simp only [hnode, List.prefix_refl], hk.whiles⟩

theorem Keeps.getLength (hk : Keeps i i') (hn : n < i.nodeCount) :
    i'.getLength n = i.getLength n := by
  unfold Program.getLength
  rw [hk.node n hn]

/-! ## Operations that do not touch nodes and loops -/

/-- Two heaps with the same nodes and loops. -/
structure SameShape (i i' : Program) : Prop where
  nodes : i'.nodes = i.nodes
  nodeCount : i'.nodeCount = i.nodeCount
  whiles : i'.whiles = i.whiles
  whileCount : i'.whileCount = i.whileCount

/-- Two heaps that differ at most in limiters and declarations. -/
structure SameHeap (i i' : Program) : Prop extends SameShape i i' where
  tags : i'.tags = i.tags

theorem SameHeap.refl (i : Program) : SameHeap i i := ⟨⟨rfl, rfl, rfl, rfl⟩, rfl⟩

theorem SameHeap.trans (h₁ : SameHeap i₁ i₂) (h₂ : SameHeap i₂ i₃) :
    SameHeap i₁ i₃ :=
  ⟨⟨h₂.nodes.trans h₁.nodes, h₂.nodeCount.trans h₁.nodeCount, h₂.whiles.trans h₁.whiles,
    h₂.whileCount.trans h₁.whileCount⟩, h₂.tags.trans h₁.tags⟩

theorem sameHeap_newLimiterId (i : Program) (limit : Option Limiter) :
    SameHeap i (i.newLimiterId limit).1 := by
  cases limit <;> exact ⟨⟨rfl, rfl, rfl, rfl⟩, rfl⟩

theorem sameHeap_addFunction (i : Program) (args : Value) :
    SameHeap i (orWarn i (addFunction i args)) := by
  unfold addFunction
  repeat' split
  all_goals exact ⟨⟨rfl, rfl, rfl, rfl⟩, rfl⟩

theorem sameHeap_addTriggerCommand (i : Program) (entry : String × Value) :
    SameHeap i (addTriggerCommand i entry) := by
  unfold addTriggerCommand
  split <;> exact ⟨⟨rfl, rfl, rfl, rfl⟩, rfl⟩

/-- A fold of operations that keep the heap keeps the heap. -/
theorem sameHeap_foldl {α : Type} {op : Program → α → Program}
    (hop : ∀ i a, SameHeap i (op i a)) :
    ∀ (l : List α) (i : Program), SameHeap i (l.foldl op i)
  | [], i => SameHeap.refl i
  | a :: l, i => (hop i a).trans (sameHeap_foldl hop l (op i a))

theorem sameHeap_addTriggerEntry (i : Program) (entry : String × Value) :
    SameHeap i (addTriggerEntry i entry) := by
  unfold addTriggerEntry
  repeat' split
  all_goals first
    | exact ⟨⟨rfl, rfl, rfl, rfl⟩, rfl⟩
    | exact sameHeap_foldl sameHeap_addTriggerCommand _ _

theorem sameHeap_addTrigger (i : Program) (args : Value) :
    SameHeap i (orWarn i (addTrigger i args)) := by
  unfold addTrigger
  split
  · exact sameHeap_foldl sameHeap_addTriggerEntry _ _
  · exact SameHeap.refl i

theorem getLength_of_nodes (h : i'.nodes = i.nodes) (n : Nat) : i'.getLength n = i.getLength n := by
  unfold Program.getLength
  rw [h]

theorem request_of_nodes (h : i'.nodes = i.nodes) (p : ReqPtr) : i'.request p = i.request p := by
  unfold Program.request
  rw [h]

theorem SameShape.keeps (h : SameShape i i') : Keeps i i' :=
  ⟨le_of_eq h.nodeCount.symm, le_of_eq h.whileCount.symm, fun n _ => by rw [h.nodes],
    fun w _ => by rw [h.whiles]⟩

theorem IsBlock.of_node (hb : i.IsBlock c p) (hle : i.nodeCount ≤ i'.nodeCount)
    (hparent : (i'.nodes c).parent = (i.nodes c).parent)
    (hidx : (i'.nodes c).idx = (i.nodes c).idx) : i'.IsBlock c p :=
  ⟨lt_of_lt_of_le hb.lt hle, hb.node_lt, hparent.trans hb.parent, hidx.trans hb.idx⟩

/-- Arguments in place do not refer to pending loops, so rewriting one of those, or
allocating another, does not concern them. -/
theorem ArgsOk.mono (ha : i.ArgsOk W p args) (hblock : ∀ c, i.IsBlock c p → i'.IsBlock c p)
    (hlen : ∀ c, i.IsBlock c p → i'.getLength c = i.getLength c)
    (hle : i.whileCount ≤ i'.whileCount)
    (hsame : ∀ w, w < i.whileCount → w ∉ W → i'.whiles w = i.whiles w)
    (hW : ∀ w, w < i.whileCount → w ∉ W → w ∉ W') : i'.ArgsOk W' p args := by
  cases args with
  | raw | brk => trivial
  | condition ex t e => exact ⟨hblock _ ha.1, hblock _ ha.2⟩
  | switch text cases => exact fun c hc => hblock _ (ha c hc)
  | loop w =>
    obtain ⟨hlt, hnot, hpos⟩ := ha
    have hw := hsame w hlt hnot
    refine ⟨lt_of_lt_of_le hlt hle, hW w hlt hnot, ?_⟩
    rcases hpos with he | he
    · refine Or.inl ⟨by rw [hw]; exact hblock _ he.block, fun hne => ?_⟩
      rw [hw] at hne ⊢
      exact he.original (by rwa [hlen _ he.block] at hne)
    · exact Or.inr ⟨by rw [hw]; exact he.block, by rw [hw]; exact he.original⟩

/-- The nodes stay the same, and so do the loops that a request refers to. -/
theorem Building.of_whiles (hb : i.Building P W) (hnodes : i'.nodes = i.nodes)
    (hcount : i'.nodeCount = i.nodeCount)
    (htags : ∀ e ∈ i'.tags, e.2.parent < i.nodeCount ∧ e.2.idx < i.getLength e.2.parent)
    (hle : i.whileCount ≤ i'.whileCount)
    (hsame : ∀ w, w < i.whileCount → w ∉ W → i'.whiles w = i.whiles w)
    (hW : ∀ w, w < i.whileCount → w ∉ W → w ∉ W') (hW' : ∀ w ∈ W', w < i'.whileCount) :
    i'.Building P W' := by
  have hlen := getLength_of_nodes hnodes
  refine ⟨by rw [hcount]; exact hb.root_lt, by rw [hnodes]; exact hb.root_parent, fun n => ?_,
    fun n hn => ?_, fun n hn p => ?_, fun n hn hnP p hp => ?_, fun p r hp hr => ?_, fun e he => ?_,
    hW'⟩
  · rw [hnodes, hcount]
    exact hb.parent n
  · rw [hcount]
    exact hb.pending_lt n hn
  · rw [hnodes, hlen]
    exact hb.pending_idx n hn p
  · rw [hcount] at hn
    rw [hnodes] at hp ⊢
    obtain ⟨r, hr, ho⟩ := hb.owned n hn hnP p hp
    refine ⟨r, by rw [request_of_nodes hnodes]; exact hr, ?_⟩
    have hargs := hb.args ⟨p, (i.nodes n).idx⟩ r ((hb.parent_lt hn hp).trans hn) hr
    cases hra : r.args with
    | loop w =>
      rw [hra] at ho hargs
      show (i'.whiles w).do_ = n
      rw [hsame w hargs.1 hargs.2.1]
      exact ho
    | _ => rw [hra] at ho; exact ho
  · rw [hcount] at hp
    rw [request_of_nodes hnodes] at hr
    exact (hb.args p r hp hr).mono
      (fun c h => h.of_node hcount.ge (by rw [hnodes]) (by rw [hnodes]))
      (fun c _ => hlen c) hle hsame hW
  · rw [hcount, hlen]
    exact htags e he

/-- Only the tags have to be looked at again when the shape stays the same. -/
theorem SameShape.building (h : SameShape i i') (hb : i.Building P W)
    (htags : ∀ e ∈ i'.tags, e.2.parent < i.nodeCount ∧ e.2.idx < i.getLength e.2.parent) :
    i'.Building P W :=
  hb.of_whiles h.nodes h.nodeCount htags h.whileCount.ge (fun w _ _ => by rw [h.whiles])
    (fun _ _ h => h) (fun w hw => by rw [h.whileCount]; exact hb.loops w hw)

theorem SameHeap.building (h : SameHeap i i') (hb : i.Building P W) : i'.Building P W :=
  h.toSameShape.building hb (by rw [h.tags]; exact hb.tags)

/-! ## Allocation -/

theorem newNode_nodes_of_lt (i : Program) (parent : Nat) (hn : n < i.nodeCount) :
    (i.newNode parent).nodes n = i.nodes n :=
  update_of_ne (Nat.ne_of_lt hn) _ _

@[simp] theorem newNode_nodes_self (i : Program) (parent : Nat) :
    (i.newNode parent).nodes i.nodeCount
      = { parent := some parent, idx := i.getLength parent, children := [] } :=
  update_self _ _ _

@[simp] theorem newNode_nodeCount (i : Program) (parent : Nat) :
    (i.newNode parent).nodeCount = i.nodeCount + 1 := rfl

theorem newNode_getLength (i : Program) (parent : Nat) (hn : n < i.nodeCount) :
    (i.newNode parent).getLength n = i.getLength n := by
  unfold Program.getLength
  rw [newNode_nodes_of_lt i parent hn]

theorem newNode_request (i : Program) (parent : Nat) (hp : p.node < i.nodeCount) :
    (i.newNode parent).request p = i.request p := by
  unfold Program.request
  rw [newNode_nodes_of_lt i parent hp]

theorem keeps_newNode (i : Program) (parent : Nat) : Keeps i (i.newNode parent) :=
  ⟨Nat.le_succ _, le_refl _, fun _ hn => newNode_nodes_of_lt i parent hn, fun _ _ => rfl⟩

/-- A new block of `root` is pending until its owner is attached. -/
theorem Building.newNode (hb : i.Building P W) (hroot : root < i.nodeCount) :
    (i.newNode root).Building (insert i.nodeCount P) W where
  root_lt := Nat.succ_pos _
  root_parent := by
    rw [newNode_nodes_of_lt i root hb.root_lt]
    exact hb.root_parent
  parent n hpos hn := by
    rcases Nat.lt_succ_iff_lt_or_eq.mp hn with hlt | rfl
    · rw [newNode_nodes_of_lt i root hlt]
      exact hb.parent n hpos hlt
    · exact ⟨root, by simp, hroot⟩
  pending_lt n hn := by
    rcases hn with rfl | hn
    · exact ⟨hb.root_lt, Nat.lt_succ_self _⟩
    · exact ⟨(hb.pending_lt n hn).1, Nat.lt_succ_of_lt (hb.pending_lt n hn).2⟩
  pending_idx n hn p hp := by
    rcases hn with rfl | hn
    · simp only [newNode_nodes_self, Option.some.injEq] at hp ⊢
      rw [← hp, newNode_getLength i root hroot]
    · have hlt := (hb.pending_lt n hn).2
      rw [newNode_nodes_of_lt i root hlt] at hp ⊢
      have hpn := hb.parent_lt hlt hp
      rw [newNode_getLength i root (by omega)]
      exact hb.pending_idx n hn p hp
  owned n hn hnP p hp := by
    have hne : n ≠ i.nodeCount := fun h => hnP (Or.inl h)
    have hlt : n < i.nodeCount := by
      rw [newNode_nodeCount] at hn
      omega
    rw [newNode_nodes_of_lt i root hlt] at hp ⊢
    obtain ⟨r, hr, ho⟩ := hb.owned n hlt (fun h => hnP (Or.inr h)) p hp
    have hpn := hb.parent_lt hlt hp
    refine ⟨r, ?_, ho⟩
    rw [newNode_request i root (show p < i.nodeCount by omega)]
    exact hr
  args p r hp hr := by
    rcases Nat.lt_succ_iff_lt_or_eq.mp hp with hlt | heq
    · rw [newNode_request i root hlt] at hr
      have hnode : ∀ c, i.IsBlock c p → (i.newNode root).nodes c = i.nodes c := fun c h =>
        newNode_nodes_of_lt i root h.lt
      exact (hb.args p r hlt hr).mono
        (fun c h => h.of_node (Nat.le_succ _) (by rw [hnode c h]) (by rw [hnode c h]))
        (fun c h => newNode_getLength i root h.lt) le_rfl (fun _ _ _ => rfl) (fun _ _ h => h)
    · -- the new node has no children
      unfold Program.request at hr
      rw [heq, newNode_nodes_self] at hr
      cases hr
  tags e he := by
    obtain ⟨hlt, hidx⟩ := hb.tags e he
    exact ⟨Nat.lt_succ_of_lt hlt, by rw [newNode_getLength i root hlt]; exact hidx⟩
  loops := hb.loops

theorem Building.newWhileId (hb : i.Building P W) (args : WhileArgs) :
    (i.newWhileId args).Building P (insert i.whileCount W) := by
  refine hb.of_whiles rfl rfl hb.tags (Nat.le_succ _) (fun w hw _ => ?_) (fun w hw hnot hin => ?_)
    (fun w hw => ?_)
  · exact update_of_ne (Nat.ne_of_lt hw) _ _
  · rcases hin with rfl | hin
    · exact absurd hw (lt_irrefl _)
    · exact hnot hin
  · rcases hw with rfl | hw
    · exact Nat.lt_succ_self _
    · exact Nat.lt_succ_of_lt (hb.loops w hw)

/-- Completing the arguments of a pending loop makes it available. -/
theorem Building.setWhile (hb : i.Building P (insert w W)) (args : WhileArgs) :
    (i.setWhile w args).Building P W := by
  refine hb.of_whiles rfl rfl hb.tags (le_refl _) (fun w' _ hnot => ?_) (fun w' _ hnot hin => ?_)
    (fun w' hw' => hb.loops w' (Or.inr hw'))
  · exact update_of_ne (fun h => hnot (Or.inl h)) _ _
  · exact hnot (Or.inr hin)

/-! ## Attaching a request -/

@[simp] theorem add_nodes_self (i : Program) (n : Nat) (r : ApplicationRequest) :
    (i.add n r).nodes n = { i.nodes n with children := (i.nodes n).children ++ [r] } :=
  update_self _ _ _

theorem add_nodes_of_ne (i : Program) (r : ApplicationRequest) (h : m ≠ n) :
    (i.add n r).nodes m = i.nodes m :=
  update_of_ne h _ _

theorem add_parent (i : Program) (n m : Nat) (r : ApplicationRequest) :
    ((i.add n r).nodes m).parent = (i.nodes m).parent := by
  by_cases h : m = n
  · rw [h, add_nodes_self]
  · rw [add_nodes_of_ne i r h]

theorem add_idx (i : Program) (n m : Nat) (r : ApplicationRequest) :
    ((i.add n r).nodes m).idx = (i.nodes m).idx := by
  by_cases h : m = n
  · rw [h, add_nodes_self]
  · rw [add_nodes_of_ne i r h]

theorem add_getLength_self (i : Program) (n : Nat) (r : ApplicationRequest) :
    (i.add n r).getLength n = i.getLength n + 1 := by
  unfold Program.getLength
  rw [add_nodes_self, List.length_append, List.length_singleton]

theorem add_getLength_of_ne (i : Program) (r : ApplicationRequest) (h : m ≠ n) :
    (i.add n r).getLength m = i.getLength m := by
  unfold Program.getLength
  rw [add_nodes_of_ne i r h]

theorem getLength_le_add (i : Program) (n m : Nat) (r : ApplicationRequest) :
    i.getLength m ≤ (i.add n r).getLength m := by
  by_cases h : m = n
  · rw [h, add_getLength_self]
    exact Nat.le_succ _
  · rw [add_getLength_of_ne i r h]

theorem request_lt (h : i.request p = some r) : p.index < i.getLength p.node :=
  (List.getElem?_eq_some_iff.mp h).1

/-- An older request is still there. -/
theorem add_request (n : Nat) (r' : ApplicationRequest) (h : i.request p = some r) :
    (i.add n r').request p = some r := by
  have hlt := request_lt h
  unfold Program.request at h ⊢
  by_cases hn : p.node = n
  · rw [hn, add_nodes_self]
    rw [hn] at h hlt
    rw [List.getElem?_append_left hlt]
    exact h
  · rw [add_nodes_of_ne i r' hn]
    exact h

theorem add_request_self (i : Program) (n : Nat) (r : ApplicationRequest) :
    (i.add n r).request ⟨n, i.getLength n⟩ = some r := by
  unfold Program.request
  rw [add_nodes_self]
  exact List.getElem?_concat_length

/-- A request is the new one or an older one. -/
theorem add_request_cases (h : (i.add n r').request p = some r) :
    i.request p = some r ∨ (p = ⟨n, i.getLength n⟩ ∧ r = r') := by
  by_cases hn : p.node = n
  · rcases lt_trichotomy p.index (i.getLength n) with hlt | heq | hgt
    · left
      unfold Program.request at h ⊢
      rw [hn, add_nodes_self, List.getElem?_append_left hlt] at h
      rw [hn]
      exact h
    · right
      have hp : p = ⟨n, i.getLength n⟩ := by
        cases p
        simp only at hn heq
        rw [hn, heq]
      rw [hp, add_request_self] at h
      exact ⟨hp, (Option.some.inj h).symm⟩
    · have hlt := request_lt h
      rw [hn, add_getLength_self] at hlt
      omega
  · left
    unfold Program.request at h ⊢
    rwa [add_nodes_of_ne i r' hn] at h

theorem frame_add (i : Program) (n : Nat) (r : ApplicationRequest) : Frame i (i.add n r) n := by
  refine ⟨le_refl _, le_refl _, fun m _ h => add_nodes_of_ne i r h, add_parent i n n r,
    add_idx i n n r, ?_, fun _ _ => rfl⟩
  rw [add_nodes_self]
  exact List.prefix_append _ _

/-- A node that is still open is not yet the block of any request. -/
theorem Building.not_isBlock (hb : i.Building P W) (hopen : n ∈ P ∨ n = 0)
    (hlt : p.index < i.getLength p.node) : ¬ i.IsBlock n p := by
  intro hblock
  rcases hopen with hP | rfl
  · have hidx := hb.pending_idx n hP p.node hblock.parent
    rw [hblock.idx] at hidx
    omega
  · have hroot := hb.root_parent
    rw [hblock.parent] at hroot
    cases hroot

theorem ArgsOk.add (ha : i.ArgsOk W p args)
    (hne : ¬ i.IsBlock n p) (r : ApplicationRequest) : (i.add n r).ArgsOk W p args :=
  ha.mono (fun c h => h.of_node le_rfl (add_parent i n c r) (add_idx i n c r))
    (fun _ h => add_getLength_of_ne i r fun hc => hne (hc ▸ h)) le_rfl (fun _ _ _ => rfl)
    (fun _ _ h => h)

/-- Attaching a request to an open node settles the pending blocks of that node, all
of which must belong to the request. -/
theorem Building.add (hb : i.Building P W) (hn : n < i.nodeCount) (hopen : n ∈ P ∨ n = 0)
    (hown : ∀ m ∈ P, (i.nodes m).parent = some n → i.Owns m r.args)
    (hargs : i.ArgsOk W ⟨n, i.getLength n⟩ r.args) :
    (i.add n r).Building {m ∈ P | (i.nodes m).parent ≠ some n} W where
  root_lt := hb.root_lt
  root_parent := by rw [add_parent]; exact hb.root_parent
  parent m := by rw [add_parent]; exact hb.parent m
  pending_lt m hm := hb.pending_lt m hm.1
  pending_idx m hm p hp := by
    rw [add_parent] at hp
    have hpn : p ≠ n := fun h => hm.2 (h ▸ hp)
    rw [add_idx, add_getLength_of_ne i r hpn]
    exact hb.pending_idx m hm.1 p hp
  owned m hm hmP p hp := by
    rw [add_parent] at hp
    rw [add_idx]
    by_cases hP : m ∈ P
    · -- a block that was waiting for this request
      have hpn : p = n := by
        by_contra hne
        exact hmP ⟨hP, fun h => hne (Option.some.inj (hp.symm.trans h))⟩
      subst hpn
      rw [hb.pending_idx m hP p hp]
      exact ⟨r, add_request_self i p r, hown m hP hp⟩
    · obtain ⟨r', hr', ho⟩ := hb.owned m hm hP p hp
      exact ⟨r', add_request n r hr', ho⟩
  args p r' hp hr' := by
    rcases add_request_cases hr' with hold | ⟨rfl, rfl⟩
    · exact (hb.args p r' hp hold).add (hb.not_isBlock hopen (request_lt hold)) r
    · exact hargs.add (fun h => absurd h.node_lt (lt_irrefl _)) _
  tags e he :=
    ⟨(hb.tags e he).1, lt_of_lt_of_le (hb.tags e he).2 (getLength_le_add i n _ r)⟩
  loops := hb.loops

theorem attach_eq (i : Program) (root : Nat) (app : Application) (args : Args)
    (limiter : Option Nat) :
    attach i root app args limiter
      = (i.add root ⟨app, args, limiter⟩).trySetTag app.tag root (i.getLength root) := by
  unfold attach Program.trySetTag
  split <;> rfl

theorem Building.trySetTag (hb : i.Building P W) (tag : String) (hn : n < i.nodeCount)
    (hidx : idx < i.getLength n) : (i.trySetTag tag n idx).Building P W := by
  unfold Program.trySetTag
  split
  · refine SameShape.building (i := i) ⟨rfl, rfl, rfl, rfl⟩ hb fun e he => ?_
    rcases List.mem_cons.mp he with rfl | he
    · exact ⟨hn, hidx⟩
    · exact hb.tags e he
  · exact hb

theorem keeps_trySetTag (i : Program) (tag : String) (n idx : Nat) :
    Keeps i (i.trySetTag tag n idx) := by
  unfold Program.trySetTag
  split
  · exact ⟨le_refl _, le_refl _, fun _ _ => rfl, fun _ _ => rfl⟩
  · exact Keeps.refl i

/-- The end of a parser branch. -/
theorem Building.attach (hb : i.Building P W) (hn : n < i.nodeCount) (hopen : n ∈ P ∨ n = 0)
    {args : Args}
    (hown : ∀ m ∈ P, (i.nodes m).parent = some n → i.Owns m args)
    (hargs : i.ArgsOk W ⟨n, i.getLength n⟩ args) :
    (attach i n app args limiter).Building {m ∈ P | (i.nodes m).parent ≠ some n} W := by
  rw [attach_eq]
  refine (hb.add hn hopen hown hargs).trySetTag _ hn ?_
  rw [add_getLength_self]
  exact Nat.lt_succ_self _

theorem frame_attach (hn : n < i.nodeCount) (app : Application) (args : Args)
    (limiter : Option Nat) : Frame i (attach i n app args limiter) n := by
  rw [attach_eq]
  exact (frame_add i n _).trans ((keeps_trySetTag _ _ _ _).frame hn)

/-! ## The branches of the parser

A branch allocates blocks for a request of `root`, parses into them, and attaches the
request. In between, `Opened i₀ i root P Q W` holds: the heap `i₀` the branch started
from is untouched, and `Q` are the blocks that wait for the request. -/

/-- What parsing into an open node has to establish. -/
def BuildsInto (build : Program → Nat → Program) : Prop :=
  ∀ {i : Program} {P : Set Nat} {W : Set Nat} {root : Nat}, i.Building P W →
    root < i.nodeCount → (root ∈ P ∨ root = 0) → (∀ m ∈ P, (i.nodes m).parent ≠ some root) →
      (build i root).Building P W ∧ Frame i (build i root) root

structure Opened (i₀ i : Program) (root : Nat) (P Q W : Set Nat) : Prop where
  keeps : Keeps i₀ i
  building : i.Building (Q ∪ P) W
  root_lt : root < i₀.nodeCount
  root_open : root ∈ P ∨ root = 0
  old_lt : ∀ m ∈ P, m < i₀.nodeCount
  old_parent : ∀ m ∈ P, (i₀.nodes m).parent ≠ some root
  fresh : ∀ c ∈ Q, i₀.nodeCount ≤ c
  parent : ∀ c ∈ Q, (i.nodes c).parent = some root
  idx : ∀ c ∈ Q, (i.nodes c).idx = i₀.getLength root

namespace Opened

variable {i₀ : Program} {Q : Set Nat}

theorem refl (hb : i.Building P W) (hroot : root < i.nodeCount) (hopen : root ∈ P ∨ root = 0)
    (hP : ∀ m ∈ P, (i.nodes m).parent ≠ some root) : Opened i i root P ∅ W where
  keeps := Keeps.refl i
  building := by rw [Set.empty_union]; exact hb
  root_lt := hroot
  root_open := hopen
  old_lt m hm := (hb.pending_lt m hm).2
  old_parent := hP
  fresh c hc := absurd hc (Set.notMem_empty c)
  parent c hc := absurd hc (Set.notMem_empty c)
  idx c hc := absurd hc (Set.notMem_empty c)

section

variable (h : Opened i₀ i root P Q W)
include h

theorem root_lt' : root < i.nodeCount :=
  lt_of_lt_of_le h.root_lt h.keeps.nodeCount_le

theorem lt (hc : c ∈ Q) : c < i.nodeCount :=
  (h.building.pending_lt c (Or.inl hc)).2

/-- The waiting blocks are where their request will be attached. -/
theorem isBlock (hc : c ∈ Q) : i.IsBlock c ⟨root, i.getLength root⟩ :=
  ⟨h.lt hc, lt_of_lt_of_le h.root_lt (h.fresh c hc), h.parent c hc,
    by rw [h.idx c hc, h.keeps.getLength h.root_lt]⟩

/-- Operations on limiters and loops do not concern the blocks. -/
theorem of_keeps (hk : Keeps i₀ i') (hnodes : i'.nodes = i.nodes)
    (hb : i'.Building (Q ∪ P) W') : Opened i₀ i' root P Q W' where
  __ := h
  keeps := hk
  building := hb
  parent := by rw [hnodes]; exact h.parent
  idx := by rw [hnodes]; exact h.idx

theorem newNode : Opened i₀ (i.newNode root) root P (insert i.nodeCount Q) W where
  __ := h
  keeps := h.keeps.trans (keeps_newNode i root)
  building := by rw [Set.insert_union]; exact h.building.newNode h.root_lt'
  fresh c hc := by
    rcases hc with rfl | hc
    · exact h.keeps.nodeCount_le
    · exact h.fresh c hc
  parent c hc := by
    rcases hc with rfl | hc
    · rw [newNode_nodes_self]
    · rw [newNode_nodes_of_lt i root (h.lt hc)]
      exact h.parent c hc
  idx c hc := by
    rcases hc with rfl | hc
    · rw [newNode_nodes_self]
      exact h.keeps.getLength h.root_lt
    · rw [newNode_nodes_of_lt i root (h.lt hc)]
      exact h.idx c hc

/-- No node is waiting for a request of a fresh block. -/
theorem parent_ne (hc : i₀.nodeCount ≤ c) (hm : m ∈ Q ∪ P) : (i.nodes m).parent ≠ some c := by
  intro hpar
  rcases hm with hm | hm
  · rw [h.parent m hm] at hpar
    have := Option.some.inj hpar
    have := h.root_lt
    omega
  · have hlt := h.building.parent_lt (h.building.pending_lt m (Or.inr hm)).2 hpar
    have := h.old_lt m hm
    omega

/-- A step inside a waiting block. -/
theorem of_frame (hc : c ∈ Q) (hf : Frame i i' c)
    (hb : i'.Building (Q ∪ P) W') : Opened i₀ i' root P Q W' where
  __ := h
  keeps := h.keeps.of_frame hf (h.fresh c hc)
  building := hb
  parent m hm := by rw [hf.parent_of_lt (h.lt hm)]; exact h.parent m hm
  idx m hm := by
    by_cases hmc : m = c
    · rw [hmc, hf.idx, ← hmc]
      exact h.idx m hm
    · rw [hf.node m (h.lt hm) hmc]
      exact h.idx m hm

/-- Parsing into a waiting block. -/
theorem build {build : Program → Nat → Program} (hbuild : BuildsInto build) {c : Nat} (hc : c ∈ Q) :
    Opened i₀ (build i c) root P Q W := by
  obtain ⟨hb, hf⟩ := hbuild h.building (h.lt hc) (Or.inl (Or.inl hc))
    (fun m hm => h.parent_ne (h.fresh c hc) hm)
  exact h.of_frame hc hf hb

/-- Adding the copy of a `while` to a waiting `do` block. -/
theorem add (hc : c ∈ Q)
    (hargs : i.ArgsOk W ⟨c, i.getLength c⟩ r.args) : Opened i₀ (i.add c r) root P Q W := by
  refine h.of_frame hc (frame_add i c r) ?_
  have hset : {m ∈ Q ∪ P | (i.nodes m).parent ≠ some c} = Q ∪ P :=
    Set.sep_eq_self_iff_mem_true.mpr fun m hm => h.parent_ne (h.fresh c hc) hm
  rw [← hset]
  exact h.building.add (h.lt hc) (Or.inl (Or.inl hc))
    (fun m hm hpar => absurd hpar (h.parent_ne (h.fresh c hc) hm)) hargs

/-- The last step of a branch: the request that all waiting blocks belong to. -/
theorem finish
    (hown : ∀ c ∈ Q, i.Owns c args)
    (hargs : i.ArgsOk W ⟨root, i.getLength root⟩ args) :
    (attach i root app args limiter).Building P W ∧
      Frame i₀ (attach i root app args limiter) root := by
  have hparent : ∀ m ∈ P, (i.nodes m).parent ≠ some root := by
    intro m hm
    rw [h.keeps.node m (h.old_lt m hm)]
    exact h.old_parent m hm
  have hset : {m ∈ Q ∪ P | (i.nodes m).parent ≠ some root} = P := by
    ext m
    constructor
    · rintro ⟨hm | hm, hne⟩
      · exact absurd (h.parent m hm) hne
      · exact hm
    · exact fun hm => ⟨Or.inr hm, hparent m hm⟩
  refine ⟨?_, (h.keeps.frame h.root_lt).trans (frame_attach h.root_lt' app args limiter)⟩
  rw [← hset]
  refine h.building.attach h.root_lt' (h.root_open.imp_left Or.inr) (fun m hm hpar => ?_) hargs
  rcases hm with hm | hm
  · exact hown m hm
  · exact absurd hpar (hparent m hm)

end

end Opened

/-- A branch starts by allocating the limiter of its request. -/
theorem opened_newLimiterId (hb : i.Building P W) (hroot : root < i.nodeCount)
    (hopen : root ∈ P ∨ root = 0) (hP : ∀ m ∈ P, (i.nodes m).parent ≠ some root)
    (limit : Option Limiter) : Opened i (i.newLimiterId limit).1 root P ∅ W := by
  have hsame := sameHeap_newLimiterId i limit
  refine (Opened.refl hb hroot hopen hP).of_keeps hsame.keeps hsame.nodes ?_
  rw [Set.empty_union]
  exact hsame.building hb

theorem buildsInto_leaf (app : Application) (args : Args)
    (hargs : ∀ (i : Program) (W : Set Nat) (p : ReqPtr), i.ArgsOk W p args) :
    BuildsInto fun i root =>
      attach (i.newLimiterId app.limit).1 root app args (i.newLimiterId app.limit).2 := by
  intro i P W root hb hroot hopen hP
  exact (opened_newLimiterId hb hroot hopen hP app.limit).finish
    (fun c hc => absurd hc (Set.notMem_empty c)) (hargs _ _ _)

/-- An item that is not attached to the block. -/
theorem buildsInto_declaration {op : Program → Program} (hop : ∀ i, SameHeap i (op i)) :
    BuildsInto fun i _ => op i := by
  intro i P W root hb hroot _ _
  exact ⟨(hop i).building hb, (hop i).keeps.frame hroot⟩

theorem buildsInto_cond (app : Application) (expression : String)
    (ht : BuildsInto fun i root => then_.build i root)
    (he : BuildsInto fun i root => else_.build i root) :
    BuildsInto fun i root => (Item.cond app expression then_ else_).build i root := by
  intro i P W root hb hroot hopen hP
  simp only [Item.build]
  have h₁ := opened_newLimiterId hb hroot hopen hP app.limit
  generalize (i.newLimiterId app.limit).1 = i₁ at h₁ ⊢
  have h₄ := (h₁.newNode.newNode.build ht (Or.inr (Or.inl rfl))).build he (Or.inl rfl)
  refine h₄.finish (fun c hc => ?_) ⟨h₄.isBlock (Or.inr (Or.inl rfl)), h₄.isBlock (Or.inl rfl)⟩
  rcases hc with rfl | rfl | hc
  · exact Or.inr rfl
  · exact Or.inl rfl
  · exact absurd hc (Set.notMem_empty c)

theorem keeps_newWhileId (i : Program) (args : WhileArgs) : Keeps i (i.newWhileId args) :=
  ⟨le_refl _, Nat.le_succ _, fun _ _ => rfl, fun _ hw => update_of_ne (Nat.ne_of_lt hw) _ _⟩

/-- The `originalParent` of a `while` is the request before it. -/
theorem lastRequest_eq_prev (i : Program) (n : Nat) :
    i.lastRequest n = ReqPtr.prev ⟨n, i.getLength n⟩ := rfl

/-- The block of a `while`, with its loop still pending. -/
theorem opened_loop (hb : i.Building P W) (hroot : root < i.nodeCount)
    (hopen : root ∈ P ∨ root = 0) (hP : ∀ m ∈ P, (i.nodes m).parent ≠ some root)
    (limit : Option Limiter) (args : WhileArgs) :
    Opened i (((i.newLimiterId limit).1.newNode root).newWhileId args) root P {i.nodeCount}
      (insert i.whileCount W) := by
  have hsame := sameHeap_newLimiterId i limit
  have h₂ := (opened_newLimiterId hb hroot hopen hP limit).newNode
  have h₃ := h₂.of_keeps (h₂.keeps.trans (keeps_newWhileId _ args)) rfl
    (h₂.building.newWhileId args)
  rw [insert_empty_eq, hsame.nodeCount] at h₃
  rwa [show ((i.newLimiterId limit).1.newNode root).whileCount = i.whileCount from
    hsame.whileCount] at h₃

theorem buildsInto_loop (app : Application) (condition : String) (maxSteps : Int)
    (hbody : BuildsInto fun i root => body.build i root) :
    BuildsInto fun i root => (Item.loop app condition maxSteps body).build i root := by
  intro i P W root hb hroot hopen hP
  have hsame := sameHeap_newLimiterId i app.limit
  have hfresh : i.whileCount ∉ W := fun h => lt_irrefl _ (hb.loops _ h)
  simp only [Item.build, hsame.nodeCount, hsame.whileCount]
  have h₃ := opened_loop hb hroot hopen hP app.limit (initialWhileArgs i.nodeCount)
  have h₄ := h₃.build hbody (Set.mem_singleton _)
  generalize body.build _ i.nodeCount = i₄ at h₄ ⊢
  have hlt : i.whileCount < i₄.whileCount := h₄.building.loops _ (Or.inl rfl)
  generalize hargs : WhileArgs.mk condition i.nodeCount maxSteps (i₄.lastRequest root) = args
  have hw : (i₄.setWhile i.whileCount args).whiles i.whileCount = args :=
    update_self _ _ _
  have h₅ : Opened i (i₄.setWhile i.whileCount args) root P {i.nodeCount} W := by
    refine h₄.of_keeps ⟨h₄.keeps.nodeCount_le, h₄.keeps.whileCount_le, h₄.keeps.node,
      fun w hw' => ?_⟩ rfl (h₄.building.setWhile args)
    rw [← h₄.keeps.whiles w hw']
    exact update_of_ne (Nat.ne_of_lt hw') _ _
  generalize hi₅ : i₄.setWhile i.whileCount args = i₅ at h₅ hw ⊢
  have hlt₅ : i.whileCount < i₅.whileCount := by rw [← hi₅]; exact hlt
  have hroot₅ : i₅.getLength root = i₄.getLength root := by rw [← hi₅]; rfl
  have h₆ := h₅.add (Set.mem_singleton _)
    (r := ⟨app, .loop i.whileCount, (i.newLimiterId app.limit).2⟩)
    ⟨hlt₅, hfresh, Or.inr ⟨by rw [hw, ← hargs], fun q hq => ?_⟩⟩
  · refine h₆.finish (fun c hc => ?_) ⟨hlt₅, hfresh, Or.inl ⟨?_, fun _ => ?_⟩⟩
    · show (i₅.whiles i.whileCount).do_ = c
      rw [hw, ← hargs, Set.mem_singleton_iff.mp hc]
    · have hblock := h₆.isBlock (Set.mem_singleton _)
      show (i₅.add i.nodeCount _).IsBlock (i₅.whiles i.whileCount).do_ _
      rw [hw, ← hargs]
      exact hblock
    · show (i₅.whiles i.whileCount).originalParent = _
      rw [hw, ← hargs, add_getLength_of_ne _ _ (Nat.ne_of_lt hroot), hroot₅]
      exact lastRequest_eq_prev i₄ root
  · -- the original parent lies in `root`, an older node than the block
    rw [hw, ← hargs, lastRequest_eq_prev] at hq
    unfold ReqPtr.prev at hq
    split at hq
    · cases hq
    · rw [← Option.some.inj hq]
      exact Nat.ne_of_lt hroot

theorem buildsInto_bareLoop (app : Application) :
    BuildsInto fun i root => (Item.bareLoop app).build i root := by
  intro i P W root hb hroot hopen hP
  have hsame := sameHeap_newLimiterId i app.limit
  have hfresh : i.whileCount ∉ W := fun h => lt_irrefl _ (hb.loops _ h)
  simp only [Item.build, hsame.nodeCount, hsame.whileCount]
  have h₃ := opened_loop hb hroot hopen hP app.limit (initialWhileArgs i.nodeCount)
  have hnode : (((i.newLimiterId app.limit).1.newNode root).newWhileId
      (initialWhileArgs i.nodeCount)).getLength i.nodeCount = 0 := by
    show ((i.newLimiterId app.limit).1.newNode root).getLength i.nodeCount = 0
    unfold Program.getLength
    rw [← hsame.nodeCount, newNode_nodes_self]
    rfl
  generalize hi₃ : ((i.newLimiterId app.limit).1.newNode root).newWhileId
    (initialWhileArgs i.nodeCount) = i₃ at h₃ hnode ⊢
  have hw : i₃.whiles i.whileCount = initialWhileArgs i.nodeCount := by
    rw [← hi₃, ← hsame.whileCount]
    exact update_self _ _ _
  have hlt : i.whileCount < i₃.whileCount := h₃.building.loops _ (Or.inl rfl)
  have hbuilding := h₃.building.setWhile (i₃.whiles i.whileCount)
  have h₄ : Opened i i₃ root P {i.nodeCount} W := by
    refine h₃.of_keeps h₃.keeps rfl ?_
    rwa [show i₃.setWhile i.whileCount (i₃.whiles i.whileCount) = i₃ by
      unfold Program.setWhile
      rw [update_eq_self]] at hbuilding
  refine h₄.finish (fun c hc => ?_) ⟨hlt, hfresh, Or.inl ⟨?_, fun hlen => ?_⟩⟩
  · show (i₃.whiles i.whileCount).do_ = c
    rw [hw, Set.mem_singleton_iff.mp hc]
    rfl
  · rw [hw]
    exact h₄.isBlock (Set.mem_singleton _)
  · rw [hw] at hlen
    exact absurd hnode hlen

/-- The blocks of a switch, opened one after the other. -/
theorem opened_cases {cases : Cases}
    (hcases : ∀ {i : Program} {Q : Set Nat}, Opened i₀ i root P Q W →
      Opened i₀ (cases.build i root).1 root P
        ({c | ∃ name, (name, c) ∈ (cases.build i root).2} ∪ Q) W)
    {app : Application} (h : Opened i₀ i root P ∅ W) :
    (attach (cases.build i root).1 root app (.switch text (cases.build i root).2) limiter).Building
        P W ∧
      Frame i₀
        (attach (cases.build i root).1 root app (.switch text (cases.build i root).2) limiter)
        root := by
  have h' := hcases h
  rw [Set.union_empty] at h'
  exact h'.finish (fun c hc => hc) (fun c hc => h'.isBlock ⟨c.1, hc⟩)

theorem opened_cases_cons (hblock : BuildsInto fun i root => block.build i root)
    (hrest : ∀ {i : Program} {Q : Set Nat}, Opened i₀ i root P Q W →
      Opened i₀ (rest.build i root).1 root P
        ({c | ∃ name, (name, c) ∈ (rest.build i root).2} ∪ Q) W)
    (h : Opened i₀ i root P Q W) :
    Opened i₀ ((Cases.cons name block rest).build i root).1 root P
      ({c | ∃ name', (name', c) ∈ ((Cases.cons name block rest).build i root).2} ∪ Q) W := by
  have h' := hrest (h.newNode.build hblock (Or.inl rfl))
  simp only [Cases.build]
  convert h' using 1
  ext c
  constructor
  · rintro (⟨name', hc⟩ | hc)
    · rcases List.mem_cons.mp hc with heq | hc
      · cases heq
        exact Or.inr (Or.inl rfl)
      · exact Or.inl ⟨name', hc⟩
    · exact Or.inr (Or.inr hc)
  · rintro (⟨name', hc⟩ | rfl | hc)
    · exact Or.inl ⟨name', List.mem_cons_of_mem _ hc⟩
    · exact Or.inl ⟨name, List.mem_cons_self⟩
    · exact Or.inr hc

/-! ## The induction over the tree -/

mutual

theorem buildsInto_block : ∀ b : Block, BuildsInto fun i root => b.build i root
  | .nil => by
    intro hb _ _ _
    exact ⟨hb, Frame.refl _ _⟩
  | .cons item rest => by
    intro hb hroot hopen hP
    obtain ⟨hb₁, hf₁⟩ := buildsInto_item item hb hroot hopen hP
    obtain ⟨hb₂, hf₂⟩ := buildsInto_block rest hb₁ (lt_of_lt_of_le hroot hf₁.nodeCount_le) hopen
      (fun m hm => by
        rw [hf₁.parent_of_lt (hb.pending_lt m hm).2]
        exact hP m hm)
    exact ⟨hb₂, hf₁.trans hf₂⟩

theorem buildsInto_item : ∀ item : Item, BuildsInto fun i root => item.build i root
  | .plain app => buildsInto_leaf app .raw fun _ _ _ => trivial
  | .brk app => buildsInto_leaf app .brk fun _ _ _ => trivial
  | .cond app ex t e => buildsInto_cond app ex (buildsInto_block t) (buildsInto_block e)
  | .loop app c m body => buildsInto_loop app c m (buildsInto_block body)
  | .bareLoop app => buildsInto_bareLoop app
  | .switch app text cases => by
    intro hb hroot hopen hP
    exact opened_cases (opened_casesBuild cases) (opened_newLimiterId hb hroot hopen hP app.limit)
  | .function app => buildsInto_declaration fun i =>
    (sameHeap_newLimiterId i app.limit).trans (sameHeap_addFunction _ _)
  | .trigger app => buildsInto_declaration fun i =>
    (sameHeap_newLimiterId i app.limit).trans (sameHeap_addTrigger _ _)
  | .dropped app => buildsInto_declaration fun i => sameHeap_newLimiterId i app.limit

theorem opened_casesBuild {root : Nat} {P W : Set Nat} :
    ∀ (cases : Cases) {i : Program} {Q : Set Nat}, Opened i₀ i root P Q W →
      Opened i₀ (cases.build i root).1 root P
        ({c | ∃ name, (name, c) ∈ (cases.build i root).2} ∪ Q) W
  | .nil => by
    intro h
    simpa [Cases.build] using h
  | .cons name block rest => fun h =>
    opened_cases_cons (buildsInto_block block) (opened_casesBuild rest) h

end

theorem building_empty (functions triggers : List (String × Applications)) :
    (Program.empty functions triggers).Building ∅ ∅ where
  root_lt := Nat.one_pos
  root_parent := rfl
  parent n hpos hn := absurd hn (by simp [Program.empty]; omega)
  pending_lt n hn := absurd hn (Set.notMem_empty n)
  pending_idx n hn := absurd hn (Set.notMem_empty n)
  owned _ _ _ _ hp := by cases hp
  args _ _ _ hr := by cases hr
  tags _ he := by cases he
  loops w hw := absurd hw (Set.notMem_empty w)

/-- Every schema parses into a well-formed heap. -/
theorem wellFormed_parse (functions triggers : List (String × Applications))
    (schema : Applications) :
    (parseFlowArray (Program.empty functions triggers) 0 schema).WellFormed := by
  rw [parseFlowArray_eq_build]
  exact (buildsInto_block (decode schema) (building_empty functions triggers) Nat.one_pos
    (Or.inr rfl) (fun m hm => absurd hm (Set.notMem_empty m))).1

end Program

end FlowManager
