import FlowManager.Flow.Nested

/-!
# What forking does to the forked flow (flow/flow.go, flow/function.go, flow/trigger.go)

`Fork` hands the fork the maps of functions and triggers themselves, not copies of them, and then
parses the schema into the fork: what the schema declares is declared for the flow that is forked as
well, and so is what any later fork of the fork declares. Everything else of a flow is its own.

- `declared`: what a list of applications declares.
- `Forked`: a fork of a flow, and anything that the fork and its forks do.
- `forked_frame`: the flow that is forked gets the declarations of all of them, and nothing else.
-/

namespace FlowManager

/-- The maps of functions and triggers -/
abbrev Maps := List (String × Applications) × List (String × Applications)

def Program.maps (i : Program) : Maps := (i.functions, i.triggers)

/-- Entries shadow those below them. -/
def Maps.over (upper lower : Maps) : Maps := (upper.1 ++ lower.1, upper.2 ++ lower.2)

/-- What a list of applications declares: the maps of a flow that has no others -/
def declared (schema : Applications) : Maps := (Flow.parsed [] [] schema).prog.maps

/-- `f.triggers[name]` -/
def Program.lookupTrigger (p : Program) (name : String) : Option Applications :=
  (p.triggers.find? fun entry => entry.1 == name).map (·.2)

/-! ## Parsing -/

theorem over_nil (m : Maps) : m.over ([], []) = m := by
  simp [Maps.over]

theorem nil_over (m : Maps) : Maps.over ([], []) m = m := rfl

theorem over_assoc (a b c : Maps) : (a.over b).over c = a.over (b.over c) := by
  simp [Maps.over]

theorem newLimiterId_maps (i : Program) (limit : Option Limiter) :
    (i.newLimiterId limit).1.maps = i.maps := by
  cases limit <;> rfl

theorem attach_maps (i : Program) (root : Nat) (app : Application) (args : Args)
    (limiter : Option Nat) : (attach i root app args limiter).maps = i.maps := by
  unfold attach Program.trySetTag
  split <;> rfl

/-- `addFunction` adds the same whatever is there. -/
theorem addFunction_maps (args : Value) : ∃ d : Maps, ∀ i : Program,
    (orWarn i (addFunction i args)).maps = d.over i.maps := by
  unfold addFunction
  split
  · split
    · exact ⟨([], []), fun i => rfl⟩
    · split
      · exact ⟨([], []), fun i => rfl⟩
      · exact ⟨([_], []), fun i => rfl⟩
  · exact ⟨([], []), fun i => rfl⟩

/-- A loop adds the same whatever is there if each round does. -/
theorem foldl_maps {α : Type} {add : Program → α → Program}
    (hadd : ∀ x, ∃ d : Maps, ∀ i, (add i x).maps = d.over i.maps) (l : List α) :
    ∃ d : Maps, ∀ i, (l.foldl add i).maps = d.over i.maps := by
  induction l with
  | nil => exact ⟨([], []), fun i => rfl⟩
  | cons x l ih =>
    obtain ⟨d, hd⟩ := hadd x
    obtain ⟨rest, hrest⟩ := ih
    refine ⟨rest.over d, fun i => ?_⟩
    rw [List.foldl_cons, hrest, hd, over_assoc]

theorem addTriggerCommand_maps (entry : String × Value) : ∃ d : Maps, ∀ i : Program,
    (addTriggerCommand i entry).maps = d.over i.maps := by
  unfold addTriggerCommand
  split
  · exact ⟨([], [_]), fun i => rfl⟩
  · exact ⟨([], []), fun i => rfl⟩

theorem addTriggerEntry_maps (entry : String × Value) : ∃ d : Maps, ∀ i : Program,
    (addTriggerEntry i entry).maps = d.over i.maps := by
  unfold addTriggerEntry
  split
  · split
    · exact ⟨([], [_]), fun i => rfl⟩
    · exact ⟨([], []), fun i => rfl⟩
  · split
    · exact foldl_maps addTriggerCommand_maps _
    · exact ⟨([], []), fun i => rfl⟩
  · exact ⟨([], []), fun i => rfl⟩

theorem addTrigger_maps (args : Value) : ∃ d : Maps, ∀ i : Program,
    (orWarn i (addTrigger i args)).maps = d.over i.maps := by
  unfold addTrigger
  split
  · exact foldl_maps addTriggerEntry_maps _
  · exact ⟨([], []), fun i => rfl⟩

mutual

/-- A block declares the same wherever it is parsed. -/
theorem Block.build_maps : ∀ b : Block, ∃ d : Maps, ∀ (i : Program) (root : Nat),
    (b.build i root).maps = d.over i.maps
  | .nil => ⟨([], []), fun i root => by rw [Block.build, nil_over]⟩
  | .cons item rest => by
    obtain ⟨d, hd⟩ := item.build_maps
    obtain ⟨d', hd'⟩ := rest.build_maps
    exact ⟨d'.over d, fun i root => by rw [Block.build, hd', hd, over_assoc]⟩

theorem Item.build_maps : ∀ item : Item, ∃ d : Maps, ∀ (i : Program) (root : Nat),
    (item.build i root).maps = d.over i.maps
  | .plain app | .brk app =>
    ⟨([], []), fun i root => by rw [Item.build, attach_maps, newLimiterId_maps, nil_over]⟩
  | .bareLoop app => ⟨([], []), fun i root => by
      rw [Item.build, attach_maps, nil_over]
      exact newLimiterId_maps ..⟩
  | .dropped app => ⟨([], []), fun i root => by rw [Item.build, newLimiterId_maps, nil_over]⟩
  | .cond app expression then_ else_ => by
    obtain ⟨d, hd⟩ := then_.build_maps
    obtain ⟨d', hd'⟩ := else_.build_maps
    refine ⟨d'.over d, fun i root => ?_⟩
    rw [Item.build, attach_maps, hd', hd, over_assoc]
    exact congrArg (d'.over <| d.over ·) (newLimiterId_maps ..)
  | .loop app condition maxSteps body => by
    obtain ⟨d, hd⟩ := body.build_maps
    refine ⟨d, fun i root => ?_⟩
    rw [Item.build, attach_maps]
    exact (hd ..).trans (congrArg d.over (newLimiterId_maps ..))
  | .switch app text cases => by
    obtain ⟨d, hd⟩ := cases.build_maps
    exact ⟨d, fun i root => by rw [Item.build, attach_maps, hd, newLimiterId_maps]⟩
  | .function app => by
    obtain ⟨d, hd⟩ := addFunction_maps app.args
    exact ⟨d, fun i root => by rw [Item.build, hd, newLimiterId_maps]⟩
  | .trigger app => by
    obtain ⟨d, hd⟩ := addTrigger_maps app.args
    exact ⟨d, fun i root => by rw [Item.build, hd, newLimiterId_maps]⟩

theorem Cases.build_maps : ∀ c : Cases, ∃ d : Maps, ∀ (i : Program) (parent : Nat),
    (c.build i parent).1.maps = d.over i.maps
  | .nil => ⟨([], []), fun i parent => by rw [Cases.build, nil_over]⟩
  | .cons name block rest => by
    obtain ⟨d, hd⟩ := block.build_maps
    obtain ⟨d', hd'⟩ := rest.build_maps
    refine ⟨d'.over d, fun i parent => ?_⟩
    rw [Cases.build, hd', hd, over_assoc]
    rfl

end

/-- The maps of a fork: what it declares, over what there was. -/
theorem fork_maps (f : Flow) (schema : Applications) :
    (f.fork schema).1.prog.maps = (declared schema).over f.prog.maps := by
  obtain ⟨d, hd⟩ := (decode schema).build_maps
  have hparsed : ∀ functions triggers,
      (Flow.parsed functions triggers schema).prog.maps = d.over (functions, triggers) := by
    intro functions triggers
    rw [Flow.parsed, parseFlowArray_eq_build, hd]
    rfl
  rw [declared, hparsed, over_nil]
  exact hparsed ..

/-! ## A fork, and what it does -/

/-- What happens to a fork itself: `Route` is called, goes on for an iteration, or is cancelled from
outside, and a timer rewinds it. -/
inductive Own : Flow → Flow → Prop where
  | start (g : Flow) : Own g (g.setInterrupted none)
  | route {E : Type} (w : World E) {s s' : RouteState E} (h : routeStep w s = .ok s') :
      Own s.flow s'.flow
  | cancel (g : Flow) : Own g g.setCancel
  | reset (g : Flow) : Own g g.reset

/-- `Forked f schemas parent forks`: the flow `f` has been forked and nothing has happened to it
since but what its forks do. They and it are `forks` and `parent` now, and `schemas` are those that
have been forked, the last one first. -/
inductive Forked (f : Flow) : List Applications → Flow → List Flow → Prop where
  | fork (schema : Applications) : Forked f [schema] (f.fork schema).2 [(f.fork schema).1]
  | own {schemas parent before g g' after} :
      Forked f schemas parent (before ++ g :: after) → Own g g' →
        Forked f schemas parent (before ++ g' :: after)
  /-- a fork is forked in its turn, and the maps of all are those of the new one -/
  | again {schemas parent forks g} (schema : Applications) :
      Forked f schemas parent forks → g ∈ forks →
        Forked f (schema :: schemas)
          (parent.declare (g.fork schema).1.prog.functions (g.fork schema).1.prog.triggers)
          ((g.fork schema).1 :: forks.map
            (·.declare (g.fork schema).1.prog.functions (g.fork schema).1.prog.triggers))

/-- All that has been declared -/
def allDeclared (schemas : List Applications) : Maps :=
  (schemas.flatMap fun schema => (declared schema).1, schemas.flatMap fun s => (declared s).2)

theorem allDeclared_cons (schema : Applications) (schemas : List Applications) :
    allDeclared (schema :: schemas) = (declared schema).over (allDeclared schemas) := rfl

theorem Own.prog (h : Own g g') (hg : g.Safe) : g'.Safe ∧ g'.prog = g.prog := by
  cases h with
  | start | cancel => exact ⟨hg.congr rfl rfl rfl, rfl⟩
  | route w hstep => exact safe_routeN 1 hg (Loop.iterate_succ hstep)
  | reset =>
    refine ⟨hg.reset, ?_⟩
    unfold Flow.reset
    split <;> rfl

/-- The flow that was forked has got the declarations and is as it was otherwise; the forks have its
maps. -/
theorem forked_inv (h : Forked f schemas parent forks) :
    (∃ maps : Maps, parent = f.declare maps.1 maps.2 ∧
      maps = (allDeclared schemas).over f.prog.maps) ∧
    ∀ g ∈ forks, g.Safe ∧ g.prog.maps = parent.prog.maps := by
  induction h with
  | fork schema =>
    refine ⟨⟨(f.fork schema).1.prog.maps, rfl, ?_⟩, ?_⟩
    · rw [fork_maps, allDeclared_cons]
      exact congrArg (·.over f.prog.maps) (over_nil _).symm
    · intro g hg
      rw [List.mem_singleton.mp hg]
      exact ⟨Flow.safe_parsed .., rfl⟩
  | own _ hown ih =>
    obtain ⟨hparent, hforks⟩ := ih
    refine ⟨hparent, fun g hg => ?_⟩
    simp only [List.mem_append, List.mem_cons] at hg hforks
    rcases hg with hg | rfl | hg
    · exact hforks g (.inl hg)
    · obtain ⟨hsafe, hmaps⟩ := hforks _ (.inr (.inl rfl))
      obtain ⟨hsafe', hprog⟩ := hown.prog hsafe
      exact ⟨hsafe', by rw [hprog, hmaps]⟩
    · exact hforks g (.inr (.inr hg))
  | @again schemas parent forks g schema _ hmem ih =>
    obtain ⟨⟨maps, rfl, hmaps⟩, hforks⟩ := ih
    refine ⟨⟨(g.fork schema).1.prog.maps, rfl, ?_⟩, ?_⟩
    · rw [fork_maps, (hforks g hmem).2, allDeclared_cons, over_assoc, ← hmaps]
      rfl
    · intro g' hg'
      rcases List.mem_cons.mp hg' with rfl | hg'
      · exact ⟨Flow.safe_parsed .., rfl⟩
      · obtain ⟨g₀, hg₀, rfl⟩ := List.mem_map.mp hg'
        exact ⟨(hforks g₀ hg₀).1.declared _ _, rfl⟩

/-- The value of a name in a map -/
def lookupIn (m : List (String × Applications)) (name : String) : Option Applications :=
  (m.find? fun entry => entry.1 == name).map (·.2)

/-- Entries laid over a map leave a name as it is exactly if they have no other value for it. -/
theorem lookupIn_append_eq_iff (upper lower : List (String × Applications)) (name : String) :
    lookupIn (upper ++ lower) name = lookupIn lower name ↔
      ∀ apps, lookupIn upper name = some apps → lookupIn lower name = some apps := by
  have happend :
      lookupIn (upper ++ lower) name = (lookupIn upper name).or (lookupIn lower name) := by
    unfold lookupIn
    rw [List.find?_append]
    cases upper.find? fun entry => entry.1 == name <;> rfl
  rw [happend]
  cases lookupIn upper name with
  | none => simp
  | some apps => simp [eq_comm]

/-- A fork leaves the flow as it is but for the maps: they have what the forks declare over what
they had. So a function or a trigger stays what it was exactly if the forks declare none of its
name, or the last of them the same. -/
theorem forked_frame {f parent : Flow} {schemas : List Applications} {forks : List Flow}
    (h : Forked f schemas parent forks) :
    parent = f.declare ((allDeclared schemas).1 ++ f.prog.functions)
        ((allDeclared schemas).2 ++ f.prog.triggers) ∧
      (∀ name, parent.prog.lookupFunction name = f.prog.lookupFunction name ↔
        ∀ apps, lookupIn (allDeclared schemas).1 name = some apps →
          f.prog.lookupFunction name = some apps) ∧
      ∀ name, parent.prog.lookupTrigger name = f.prog.lookupTrigger name ↔
        ∀ apps, lookupIn (allDeclared schemas).2 name = some apps →
          f.prog.lookupTrigger name = some apps := by
  obtain ⟨⟨maps, rfl, rfl⟩, -⟩ := forked_inv h
  exact ⟨rfl, lookupIn_append_eq_iff _ _, lookupIn_append_eq_iff _ _⟩

/-- A schema that declares a function and what is to be done at the end of the call -/
def declaring (app : String) : Applications :=
  [[("function", .obj [("name", .str "f"), ("actions", .arr [.obj [(app, .null)]])])],
    [("trigger", .obj [("disconnected", .arr [.obj [(app, .null)]])])]]

/-- A fork that declares nothing leaves a function as it is. -/
theorem forked_frame_plain :
    ((Flow.new (declaring "hangup")).fork [[("answer", .null)]]).2.prog.lookupFunction "f" =
      (Flow.new (declaring "hangup")).prog.lookupFunction "f" := by
  refine ((forked_frame (.fork [[("answer", .null)]])).2.1 "f").mpr fun apps hdeclared => ?_
  have hmaps : declared [[("answer", .null)]] = ([], []) := by
    simp only [declared, Flow.parsed, parseFlowArray, parseApplication]
    exact attach_maps ..
  simp [allDeclared, hmaps, lookupIn] at hdeclared

/-- The names of the applications of a function or trigger -/
def appNames (apps : Option Applications) : Option (List String) :=
  apps.map (·.map fun v => (parseReq v).name)

/-- A sub-schema replaces the function and the trigger of the caller. -/
theorem forked_frame_replaced :
    appNames ((Flow.new (declaring "hangup")).prog.lookupFunction "f") = some ["hangup"] ∧
      appNames (((Flow.new (declaring "hangup")).fork (declaring "answer")).2.prog.lookupFunction
        "f") = some ["answer"] ∧
      appNames ((Flow.new (declaring "hangup")).prog.lookupTrigger "disconnected") =
        some ["hangup"] ∧
      appNames (((Flow.new (declaring "hangup")).fork (declaring "answer")).2.prog.lookupTrigger
        "disconnected") = some ["answer"] := by
  decide +kernel

end FlowManager
