import Mathlib.Data.List.Infix

/-!
# Paths and file trees

Paths are byte strings with slashes, as in Unix, or lists of names, from the root down. A file tree
has a node for every path that exists, and some nodes are symbolic links.

- `render`, `clean`, `join`, `rel`: paths as strings, without looking at files.
- `rel_up`: a relative path goes up unless the base is a prefix.
- `FileTree.walk`: following a path and the symbolic links in it.
- `FileTree.Real`: a path that exists and has no symbolic link in it; `real_of_walk` says that this
  is what one gets, and `walk_of_real` that it stays as it is.
-/

namespace Path

abbrev Name := List UInt8

def slash : UInt8 := 0x2f

def dot : Name := [0x2e]

def dotDot : Name := [0x2e, 0x2e]

/-- A name that a directory can have an entry for -/
structure IsName (n : Name) : Prop where
  nonempty : n ≠ []
  slash : slash ∉ n
  zero : 0 ∉ n
  dot : n ≠ dot
  dotDot : n ≠ dotDot

/-! ## Strings -/

/-- What stands between the slashes -/
def segments (p : List UInt8) : List Name := p.splitOn slash

/-- A path from the root as a string -/
def render (path : List Name) : List UInt8 := slash :: [slash].intercalate path

def isAbs (p : List UInt8) : Bool := p.head? = some slash

/-- One segment, without looking at files -/
def lexStep (path : List Name) (segment : Name) : List Name :=
  if segment = [] ∨ segment = dot then path
  else if segment = dotDot then path.dropLast
  else path ++ [segment]

def lexical (segments : List Name) : List Name := segments.foldl lexStep []

/-- `Clean` of a path from the root -/
def clean (p : List UInt8) : List UInt8 := render (lexical (segments p))

/-- `Join` of a path from the root and another one, none of them empty -/
def join (p p' : List UInt8) : List UInt8 := clean (p ++ slash :: p')

/-- `Abs`, with the working directory -/
def abs (cwd : Option (List UInt8)) (p : List UInt8) : Option (List UInt8) :=
  if isAbs p then some (clean p) else cwd.map (join · p)

/-- The names of a relative path: up to where the paths part, and down -/
def relNames : List Name → List Name → List Name
  | n :: base, m :: targ =>
    if n = m then relNames base targ else (n :: base).map (fun _ => dotDot) ++ m :: targ
  | base, targ => base.map (fun _ => dotDot) ++ targ

/-- `Rel` of two paths from the root -/
def rel (basepath targpath : List UInt8) : List UInt8 :=
  match relNames (lexical (segments basepath)) (lexical (segments targpath)) with
  | [] => dot
  | n :: names => [slash].intercalate (n :: names)

variable {path base targ : List Name} {n : Name}

theorem foldl_lexStep (acc : List Name) (h : ∀ n ∈ path, IsName n) :
    path.foldl lexStep acc = acc ++ path := by
  induction path generalizing acc with
  | nil => exact (List.append_nil acc).symm
  | cons n path ih =>
    have hn := h n List.mem_cons_self
    have hstep : lexStep acc n = acc ++ [n] := by
      rw [lexStep, if_neg (fun hor => hor.elim hn.nonempty hn.dot), if_neg hn.dotDot]
    rw [List.foldl_cons, hstep, ih _ fun n hn => h n (List.mem_cons_of_mem _ hn),
      List.append_assoc, List.singleton_append]

theorem segments_render (h : ∀ n ∈ path, IsName n) :
    segments (render path) = [] :: if path = [] then [[]] else path := by
  rw [segments, render, List.splitOn_cons_eq_if_modifyHead, if_pos (BEq.refl _)]
  split
  · rename_i hnil
    subst hnil
    rfl
  · rename_i hne
    rw [List.splitOn_intercalate _ (fun n hn => (h n hn).slash) hne]

/-- A path is its own name. -/
theorem lexical_render (h : ∀ n ∈ path, IsName n) : lexical (segments (render path)) = path := by
  rw [segments_render h]
  split
  · rename_i hnil
    subst hnil
    rfl
  · exact foldl_lexStep [] h

theorem relNames_up (h : ¬ base <+: targ) :
    ∃ names, relNames base targ = dotDot :: names := by
  induction base generalizing targ with
  | nil => exact absurd (List.nil_prefix) h
  | cons n base ih =>
    cases targ with
    | nil => exact ⟨_, rfl⟩
    | cons m targ =>
      rw [relNames]
      split
      · rename_i heq
        subst heq
        exact ih fun hpre => h (List.cons_prefix_cons.mpr ⟨rfl, hpre⟩)
      · exact ⟨_, rfl⟩

/-- A relative path goes up if the base is not a prefix. -/
theorem rel_up (hbase : ∀ n ∈ base, IsName n) (htarg : ∀ n ∈ targ, IsName n)
    (h : ¬ base <+: targ) :
    rel (render base) (render targ) = dotDot ∨
      dotDot ++ [slash] <+: rel (render base) (render targ) := by
  obtain ⟨names, hnames⟩ := relNames_up h
  rw [rel, lexical_render hbase, lexical_render htarg, hnames]
  cases names with
  | nil => exact .inl List.intercalate_singleton
  | cons n names =>
    right
    dsimp only
    exact List.prefix_append _ _

theorem mem_intercalate (h : b ∈ [slash].intercalate path) : b = slash ∨ ∃ n ∈ path, b ∈ n := by
  induction path with
  | nil => cases h
  | cons n path ih =>
    cases path with
    | nil =>
      rw [List.intercalate_singleton] at h
      exact .inr ⟨n, List.mem_cons_self, h⟩
    | cons m path =>
      rw [List.intercalate_cons_cons, List.mem_append, List.mem_append, List.mem_singleton] at h
      rcases h with (h | h) | h
      · exact .inr ⟨n, List.mem_cons_self, h⟩
      · exact .inl h
      · rcases ih h with h | ⟨n', hn', hb⟩
        · exact .inl h
        · exact .inr ⟨n', List.mem_cons_of_mem _ hn', hb⟩

/-- A path can be handed to C. -/
theorem zero_notMem_render (h : ∀ n ∈ path, IsName n) : 0 ∉ render path := by
  intro hmem
  rcases List.mem_cons.mp hmem with hzero | hmem
  · exact absurd hzero (by decide)
  · rcases mem_intercalate hmem with hzero | ⟨n, hn, hzero⟩
    · exact absurd hzero (by decide)
    · exact (h n hn).zero hzero

/-- A path begins with one slash only. -/
theorem render_ne_slash_slash (h : ∀ n ∈ path, IsName n) (rest : List UInt8) :
    render path ≠ slash :: slash :: rest := by
  intro heq
  have hrest := (List.cons.inj heq).2
  cases path with
  | nil => cases hrest
  | cons n path =>
    have hn := h n List.mem_cons_self
    cases hname : n with
    | nil => exact hn.nonempty hname
    | cons b n' =>
      have hb : b = slash := by
        subst hname
        cases path with
        | nil =>
          exact (List.cons.inj hrest).1
        | cons m path =>
          exact (List.cons.inj hrest).1
      exact hn.slash (by rw [hname, hb]; exact List.mem_cons_self)

/-! ## Files -/

inductive Node where
  | dir
  | regular
  | other
  | link (target : List UInt8)
  deriving DecidableEq

def Node.isLink : Node → Bool
  | .link _ => true
  | _ => false

/-- A node for every path that exists and can be seen, in a directory that is reached by no link -/
structure FileTree where
  node : List Name → Option Node
  isName : ∀ path n, node (path ++ [n]) ≠ none → IsName n

namespace FileTree

variable {t : FileTree}

/-- The next segments, from a path without links; `follow` goes on at a link. -/
def walkFrom (t : FileTree) (follow : List Name → List Name → Option (List Name)) :
    List Name → List Name → Option (List Name)
  | dest, [] => some dest
  | dest, segment :: rest =>
    if segment = [] ∨ segment = dot then walkFrom t follow dest rest
    else if segment = dotDot then walkFrom t follow dest.dropLast rest
    else
      match t.node (dest ++ [segment]) with
      | none => none
      | some (.link target) =>
        follow (if isAbs target then [] else dest) (segments target ++ rest)
      | some .dir => walkFrom t follow (dest ++ [segment]) rest
      | some _ => if rest = [] then some (dest ++ [segment]) else none

/-- The path that one gets to, with at most so many links on the way -/
def walk (t : FileTree) : Nat → List Name → List Name → Option (List Name)
  | 0 => walkFrom t fun _ _ => none
  | links + 1 => walkFrom t (walk t links)

/-- `EvalSymlinks` of a path from the root -/
def evalSymlinks (t : FileTree) (p : List UInt8) : Option (List UInt8) :=
  (t.walk 255 [] (segments p)).map render

/-- `Stat` of a path from the root, where the kernel follows the links -/
def stat (t : FileTree) (p : List UInt8) : Option Node :=
  (t.walk 40 [] (segments p)).bind t.node

/-- All on the path are directories. -/
def Dirs (t : FileTree) (path : List Name) : Prop :=
  ∀ before n after, path = before ++ n :: after → t.node (before ++ [n]) = some .dir

/-- A path that exists and that has no link in it -/
structure Real (t : FileTree) (path : List Name) : Prop where
  dirs : t.Dirs path.dropLast
  node : path ≠ [] → ∃ k, t.node path = some k ∧ k.isLink = false

theorem dirs_nil : t.Dirs [] := fun _ _ _ h => absurd h (by simp)

theorem Dirs.dropLast (h : t.Dirs path) : t.Dirs path.dropLast := by
  intro before n after heq
  cases path using List.reverseRecOn with
  | nil => simp at heq
  | append_singleton path m _ =>
    rw [List.dropLast_concat] at heq
    refine h before n (after ++ [m]) ?_
    rw [heq, List.append_assoc, List.cons_append]

theorem Dirs.concat (h : t.Dirs path) (hn : t.node (path ++ [n]) = some .dir) :
    t.Dirs (path ++ [n]) := by
  intro before m after heq
  cases after using List.reverseRecOn with
  | nil =>
    obtain ⟨rfl, hm⟩ := List.append_inj' heq rfl
    cases hm
    exact hn
  | append_singleton after m' _ =>
    rw [← List.cons_append, ← List.append_assoc] at heq
    exact h before m after (List.append_inj' heq rfl).1

theorem Dirs.real (h : t.Dirs path) : t.Real path where
  dirs := h.dropLast
  node hne := by
    cases path using List.reverseRecOn with
    | nil => exact absurd rfl hne
    | append_singleton path n _ => exact ⟨.dir, h path n [] rfl, rfl⟩

theorem Real.isName (h : t.Real path) : ∀ n ∈ path, IsName n := by
  intro n hn
  cases path using List.reverseRecOn with
  | nil => cases hn
  | append_singleton path m _ =>
    rcases List.mem_append.mp hn with hn | hn
    · obtain ⟨before, after, heq⟩ := List.append_of_mem hn
      have hdir := h.dirs before n after (by rw [List.dropLast_concat, heq])
      exact t.isName before n (by rw [hdir]; nofun)
    · obtain ⟨k, hk, -⟩ := h.node (by simp)
      rw [List.mem_singleton.mp hn]
      exact t.isName path m (by rw [hk]; nofun)

/-- No part of the path is a link. -/
theorem Real.node_above (h : t.Real path) (hp : p <+: path) (hne : p ≠ []) :
    ∃ k, t.node p = some k ∧ k.isLink = false := by
  obtain ⟨rest, rfl⟩ := hp
  cases rest using List.reverseRecOn with
  | nil =>
    rw [List.append_nil] at h
    exact h.node hne
  | append_singleton rest m _ =>
    cases p using List.reverseRecOn with
    | nil => exact absurd rfl hne
    | append_singleton p n _ =>
      refine ⟨.dir, h.dirs p n rest ?_, rfl⟩
      rw [← List.append_assoc, List.dropLast_concat, List.append_assoc, List.singleton_append]

theorem real_of_walkFrom (hfollow : ∀ dest rest real, t.Dirs dest →
      follow dest rest = some real → t.Real real) (hdest : t.Dirs dest)
    (h : t.walkFrom follow dest rest = some real) : t.Real real := by
  -- the destination so far is a path of directories
  induction rest generalizing dest with
  | nil =>
    cases h
    exact hdest.real
  | cons segment rest ih =>
    rw [walkFrom] at h
    split at h
    · exact ih hdest h
    · split at h
      · exact ih hdest.dropLast h
      · split at h
        · cases h
        · refine hfollow _ _ _ ?_ h
          split
          · exact dirs_nil
          · exact hdest
        · rename_i hdir
          exact ih (hdest.concat hdir) h
        · rename_i k hlink hdir hk
          split at h
          · cases h
            refine ⟨by rwa [List.dropLast_concat], fun _ => ⟨k, hk, ?_⟩⟩
            cases k with
            | link target => exact absurd rfl (hlink target)
            | _ => rfl
          · cases h

/-- What one gets to has no links. -/
theorem real_of_walk (hdest : t.Dirs dest) (h : t.walk links dest rest = some real) :
    t.Real real := by
  induction links generalizing dest rest real with
  | zero =>
    refine real_of_walkFrom ?_ hdest h
    intro _ _ _ _ hnone
    cases hnone
  | succ links ih => exact real_of_walkFrom (fun _ _ _ => ih) hdest h

theorem walkFrom_of_real (h : t.Real (dest ++ rest)) :
    t.walkFrom follow dest rest = some (dest ++ rest) := by
  induction rest generalizing dest with
  | nil => rw [walkFrom, List.append_nil]
  | cons n rest ih =>
    have hn := h.isName n (List.mem_append_right _ List.mem_cons_self)
    have happend : dest ++ n :: rest = dest ++ [n] ++ rest := by
      rw [List.append_assoc, List.singleton_append]
    obtain ⟨k, hk, hlink⟩ := h.node_above (p := dest ++ [n]) ⟨rest, happend.symm⟩ (by simp)
    rw [walkFrom, if_neg (fun hor => hor.elim hn.nonempty hn.dot), if_neg hn.dotDot, hk]
    cases rest with
    | nil => cases k <;> first | rfl | cases hlink
    | cons m rest =>
      -- there is more to come, so that this is a directory
      have hdir : t.node (dest ++ [n]) = some .dir := by
        refine h.dirs dest n (m :: rest).dropLast ?_
        rw [happend, List.dropLast_append_cons, List.append_assoc, List.singleton_append]
      rw [hdir] at hk
      cases hk
      rw [happend] at h ⊢
      exact ih h

/-- A path without links is where one gets to. -/
theorem walk_of_real (h : t.Real path) : t.walk links [] (segments (render path)) = some path := by
  have hfrom : ∀ follow, t.walkFrom follow [] (segments (render path)) = some path := by
    intro follow
    rw [segments_render h.isName, walkFrom, if_pos (.inl rfl)]
    split
    · rename_i hnil
      subst hnil
      rfl
    · exact walkFrom_of_real h
  cases links with
  | zero => exact hfrom _
  | succ links => exact hfrom _

theorem real_of_evalSymlinks (h : t.evalSymlinks p = some real) :
    ∃ path, t.Real path ∧ real = render path := by
  obtain ⟨path, hwalk, rfl⟩ := Option.map_eq_some_iff.mp h
  exact ⟨path, real_of_walk dirs_nil hwalk, rfl⟩

theorem stat_of_real (h : t.Real path) : t.stat (render path) = t.node path := by
  rw [stat, walk_of_real h, Option.bind_some]

end FileTree

end Path
