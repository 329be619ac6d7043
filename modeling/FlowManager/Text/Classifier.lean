import Mathlib.Data.List.Infix
import FlowManager.Text.Encode

/-!
# Classifying a text (flow/classifier.go)

The clusters are a map from names to phrases, and Go goes through a map in any order.

- `Query.findInCluster`: the code, with the clusters in one order.
- `Query.Classifies`: what it should find, in every order.
- `classifies_iff`: it does so when one cluster at most has phrases that match, and it has a name.
-/

namespace FlowManager.Classifier

open Text

/-- `strings.Contains` for the match type `part`, else equality -/
def matchFunc (matchType str sub : Bytes) : Bool :=
  if matchType = ascii "part" then sub <:+: str else str = sub

def inArr (val matchType : Bytes) (tokens : List Bytes) : Bool :=
  tokens.any (matchFunc matchType · val) || matchFunc matchType ([0x20].intercalate tokens) val

/-- The arguments besides the clusters, with `strings.ToLower` and the tokenizer -/
structure Query where
  userInput : Bytes
  matchType : Bytes
  phraseSearch : Bool
  toLower : Bytes → Bytes
  tokenize : Bytes → List Bytes

namespace Query

/-- `found`, for a phrase -/
def found (q : Query) (phrase : Bytes) : Bool :=
  if q.phraseSearch then inArr (q.toLower q.userInput) (q.toLower q.matchType) [q.toLower phrase]
  else inArr (q.toLower phrase) (q.toLower q.matchType) (q.tokenize (q.toLower q.userInput))

def findInCluster (q : Query) : List (Bytes × List Bytes) → Bytes
  | [] => []
  | (cluster, elems) :: rest => if elems.any q.found then cluster else q.findInCluster rest

/-- A phrase of the cluster matches. -/
def Hit (q : Query) (c : Bytes × List Bytes) : Prop := ∃ phrase ∈ c.2, q.found phrase = true

/-- In every order, nothing is found exactly when no phrase of any cluster matches; else a cluster
with such a phrase is found, and it is the same in all orders. -/
def Classifies (q : Query) (clusters : List (Bytes × List Bytes)) : Prop :=
  ∀ order, order.Perm clusters →
    (q.findInCluster order = [] ↔ ∀ c ∈ clusters, ¬ q.Hit c) ∧
      (q.findInCluster order ≠ [] → ∃ c ∈ clusters, q.Hit c ∧ c.1 = q.findInCluster order) ∧
        q.findInCluster order = q.findInCluster clusters

end Query

variable {q : Query} {c : Bytes × List Bytes}

theorem findInCluster_of_hit (h : q.Hit c) (rest : List (Bytes × List Bytes)) :
    q.findInCluster (c :: rest) = c.1 := if_pos (List.any_eq_true.mpr h)

theorem findInCluster_of_not_hit (h : ¬ q.Hit c) (rest : List (Bytes × List Bytes)) :
    q.findInCluster (c :: rest) = q.findInCluster rest :=
  if_neg fun hany => h (List.any_eq_true.mp hany)

/-- Either nothing matches, or a cluster that does is found. -/
theorem findInCluster_cases (q : Query) (clusters : List (Bytes × List Bytes)) :
    (∀ c ∈ clusters, ¬ q.Hit c) ∧ q.findInCluster clusters = [] ∨
      ∃ c ∈ clusters, q.Hit c ∧ c.1 = q.findInCluster clusters := by
  induction clusters with
  | nil => exact .inl ⟨nofun, rfl⟩
  | cons c rest ih =>
    by_cases hc : q.Hit c
    · exact .inr ⟨c, .head _, hc, (findInCluster_of_hit hc rest).symm⟩
    · rw [findInCluster_of_not_hit hc]
      rcases ih with ⟨hnone, hnil⟩ | ⟨d, hd, hhit⟩
      · exact .inl ⟨List.forall_mem_cons.mpr ⟨hc, hnone⟩, hnil⟩
      · exact .inr ⟨d, .tail _ hd, hhit⟩

/-- The answer is well defined if and only if no cluster without a name matches, and not two. -/
theorem classifies_iff (q : Query) (clusters : List (Bytes × List Bytes)) :
    q.Classifies clusters ↔
      (∀ c ∈ clusters, q.Hit c → c.1 ≠ []) ∧
        ∀ c ∈ clusters, ∀ d ∈ clusters, q.Hit c → q.Hit d → c.1 = d.1 := by
  constructor
  · intro h
    -- a cluster that matches is found when it comes first
    have hfirst : ∀ c ∈ clusters, q.Hit c →
        (c.1 = [] ↔ ∀ c ∈ clusters, ¬ q.Hit c) ∧ c.1 = q.findInCluster clusters := by
      intro c hc hhit
      obtain ⟨hnil, -, hsame⟩ := h _ (List.perm_cons_erase hc).symm
      rw [findInCluster_of_hit hhit] at hnil hsame
      exact ⟨hnil, hsame⟩
    constructor
    · intro c hc hhit hnil
      exact (hfirst c hc hhit).1.mp hnil c hc hhit
    · intro c hc d hd hhit hhit'
      rw [(hfirst c hc hhit).2, (hfirst d hd hhit').2]
  · rintro ⟨hnamed, hone⟩ order horder
    rcases findInCluster_cases q clusters with ⟨hnone, hnil⟩ | ⟨c, hc, hhit, hname⟩
    · rcases findInCluster_cases q order with ⟨-, hnil'⟩ | ⟨d, hd, hhit, -⟩
      · rw [hnil, hnil']
        exact ⟨⟨fun _ => hnone, fun _ => rfl⟩, fun h => absurd rfl h, rfl⟩
      · exact absurd hhit (hnone d (horder.mem_iff.mp hd))
    · rcases findInCluster_cases q order with ⟨hnone, -⟩ | ⟨d, hd, hhit', hname'⟩
      · exact absurd hhit (hnone c (horder.mem_iff.mpr hc))
      · rw [horder.mem_iff] at hd
        rw [← hname', ← hname]
        refine ⟨⟨fun hnil => ?_, fun hnone => ?_⟩, fun _ => ⟨d, hd, hhit', rfl⟩, ?_⟩
        · exact absurd hnil (hnamed d hd hhit')
        · exact absurd hhit (hnone c hc)
        · exact hone d hd c hc hhit' hhit

/-- Two clusters have the phrase, and each of them is found if it comes first. -/
theorem not_classifies_yes :
    ¬ Query.Classifies ⟨ascii "yes", ascii "full", true, id, fun input => [input]⟩
      [(ascii "agree", [ascii "yes"]), (ascii "confirm", [ascii "yes"])] := by
  intro h
  obtain ⟨-, -, hsame⟩ := h _ (List.Perm.swap ..)
  exact absurd hsame (by decide)

end FlowManager.Classifier
