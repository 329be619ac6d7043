import Mathlib.Data.List.Basic

/-!
# The matches of a pattern in a text

A pattern says how long its match at the beginning of a text is, if there is one. Scanning a text
from left to right gives its matches, which do not overlap, and the elements between them; replacing
all matches is then a matter of the tokens one by one.

- `Pattern`: a pattern, with what its matches have to do with the text that follows.
- `scan`: the tokens of a text; `scan_induction` is induction along them.
- `scan_append`: the tokens of two texts put together, if no match spans the cut.
- `boundary_or_inside`: a cut is between tokens, or inside of a match.
- `replaceAll`: replacing the matches; `Pattern.word` is the pattern of `strings.Replace`.
-/

namespace Scan

variable {α : Type}

/-- A pattern: the length of its match at the beginning of a text. A match does not depend on what
follows it, and more text does not make it go away. -/
structure Pattern (α : Type) where
  len : List α → Option Nat
  pos : ∀ {l n}, len l = some n → 0 < n
  le : ∀ {l n}, len l = some n → n ≤ l.length
  inside : ∀ {l n} (l'), len (l ++ l') = some n → n ≤ l.length → len l = some n
  longer : ∀ {l n} (l'), len l = some n → ∃ n', len (l ++ l') = some n'

/-- An element outside of all matches, or a match -/
inductive Token (α : Type) where
  | one (a : α)
  | hit (l : List α)
  deriving DecidableEq

def Token.elems : Token α → List α
  | .one a => [a]
  | .hit l => l

/-- The text of some tokens -/
def text (ts : List (Token α)) : List α := ts.flatMap Token.elems

variable {p : Pattern α} {l l' : List α} {a : α} {n : Nat}

@[simp]
theorem text_nil : text ([] : List (Token α)) = [] := rfl

@[simp]
theorem text_cons (t : Token α) (ts : List (Token α)) : text (t :: ts) = t.elems ++ text ts :=
  List.flatMap_cons ..

@[simp]
theorem text_append (ts ts' : List (Token α)) : text (ts ++ ts') = text ts ++ text ts' :=
  List.flatMap_append

/-- The tokens of a text after the next `skip` elements, which belong to a match -/
def scanFrom (p : Pattern α) : Nat → List α → List (Token α)
  | _, [] => []
  | skip + 1, _ :: l => scanFrom p skip l
  | 0, a :: l =>
    match p.len (a :: l) with
    | some n => .hit ((a :: l).take n) :: scanFrom p (n - 1) l
    | none => .one a :: scanFrom p 0 l

/-- The tokens of a text -/
def scan (p : Pattern α) (l : List α) : List (Token α) := scanFrom p 0 l

theorem scanFrom_eq (p : Pattern α) (skip : Nat) (l : List α) :
    scanFrom p skip l = scan p (l.drop skip) := by
  induction skip generalizing l with
  | zero => rfl
  | succ skip ih =>
    cases l with
    | nil => rfl
    | cons a l => exact ih l

@[simp]
theorem scan_nil (p : Pattern α) : scan p [] = [] := rfl

theorem scan_one (h : p.len (a :: l) = none) : scan p (a :: l) = .one a :: scan p l := by
  unfold scan
  rw [scanFrom]
  simp only [h]

theorem scan_hit (h : p.len l = some n) : scan p l = .hit (l.take n) :: scan p (l.drop n) := by
  cases l with
  | nil => exact absurd (p.le h) (Nat.not_le_of_lt (p.pos h))
  | cons a l =>
    have hn := p.pos h
    unfold scan
    rw [scanFrom]
    simp only [h]
    rw [scanFrom_eq, scan, ← List.drop_succ_cons, Nat.sub_add_cancel hn]

/-- Induction along the tokens of a text -/
theorem scan_induction {motive : List α → Prop} (p : Pattern α) (nil : motive [])
    (one : ∀ a l, p.len (a :: l) = none → motive l → motive (a :: l))
    (hit : ∀ l n, p.len l = some n → motive (l.drop n) → motive l) (l : List α) : motive l := by
  induction hlength : l.length using Nat.strongRecOn generalizing l with
  | ind k ih =>
    cases l with
    | nil => exact nil
    | cons a l =>
      subst hlength
      cases hlen : p.len (a :: l) with
      | none => exact one a l hlen (ih _ (Nat.lt_succ_self _) l rfl)
      | some n =>
        refine hit _ n hlen (ih _ ?_ _ rfl)
        rw [List.length_drop]
        exact Nat.sub_lt (Nat.succ_pos _) (p.pos hlen)

@[simp]
theorem text_scan (p : Pattern α) (l : List α) : text (scan p l) = l := by
  induction l using scan_induction p with
  | nil => rfl
  | one a l h ih => rw [scan_one h, text_cons, ih, Token.elems, List.singleton_append]
  | hit l n h ih => rw [scan_hit h, text_cons, ih, Token.elems, List.take_append_drop]

/-! ## Cuts -/

/-- What is no match with something behind it is none without. -/
theorem len_none_left (l' : List α) (h : p.len (l ++ l') = none) : p.len l = none := by
  by_contra hsome
  obtain ⟨n, hn⟩ := Option.ne_none_iff_exists'.mp hsome
  obtain ⟨n', hn'⟩ := p.longer l' hn
  rw [h] at hn'
  cases hn'

/-- An element in front that is no match with what follows is none with a part of it. -/
theorem len_none_of_append (l' : List α) (h : p.len (a :: (l ++ l')) = none) :
    p.len (a :: l) = none :=
  len_none_left l' h

/-- A match in front -/
theorem scan_hit_append (h : p.len (m ++ (l ++ l')) = some m.length) :
    scan p (m ++ l) = .hit m :: scan p l := by
  have hhit : p.len (m ++ l) = some m.length := by
    refine p.inside l' ?_ ?_
    · rwa [List.append_assoc]
    · rw [List.length_append]
      exact Nat.le_add_right _ _
  rw [scan_hit hhit, List.take_left, List.drop_left]

/-- The last tokens are those of their text. -/
theorem scan_drop (p : Pattern α) (i : Nat) (l : List α) :
    scan p (text ((scan p l).drop i)) = (scan p l).drop i := by
  induction i generalizing l with
  | zero => rw [List.drop_zero, text_scan]
  | succ i ih =>
    cases l with
    | nil => simp
    | cons a l =>
      cases hlen : p.len (a :: l) with
      | none =>
        rw [scan_one hlen, List.drop_succ_cons]
        exact ih l
      | some n =>
        rw [scan_hit hlen, List.drop_succ_cons]
        exact ih _

/-- So are the first tokens. -/
theorem scan_take (p : Pattern α) (i : Nat) (l : List α) :
    scan p (text ((scan p l).take i)) = (scan p l).take i := by
  induction i generalizing l with
  | zero => simp
  | succ i ih =>
    cases l with
    | nil => simp
    | cons a l =>
      cases hlen : p.len (a :: l) with
      | none =>
        have hrest : text ((scan p l).take i) ++ text ((scan p l).drop i) = l := by
          rw [← text_append, List.take_append_drop, text_scan]
        rw [scan_one hlen, List.take_succ_cons, text_cons, Token.elems, List.singleton_append,
          scan_one, ih]
        refine len_none_of_append (text ((scan p l).drop i)) ?_
        rw [hrest, hlen]
      | some n =>
        have hrest : text ((scan p ((a :: l).drop n)).take i) ++
            text ((scan p ((a :: l).drop n)).drop i) = (a :: l).drop n := by
          rw [← text_append, List.take_append_drop, text_scan]
        have hhit : p.len ((a :: l).take n ++ (text ((scan p ((a :: l).drop n)).take i) ++
            text ((scan p ((a :: l).drop n)).drop i))) = some ((a :: l).take n).length := by
          rw [hrest, List.take_append_drop, List.length_take_of_le (p.le hlen), hlen]
        rw [scan_hit hlen, List.take_succ_cons, text_cons, Token.elems, scan_hit_append hhit, ih]

/-- No match spans the cut between two texts. -/
def Boundary (p : Pattern α) (l l' : List α) : Prop :=
  ∃ i, text ((scan p (l ++ l')).take i) = l

theorem scan_append (h : Boundary p l l') : scan p (l ++ l') = scan p l ++ scan p l' := by
  obtain ⟨i, hi⟩ := h
  have hdrop : text ((scan p (l ++ l')).drop i) = l' := by
    have hall : text ((scan p (l ++ l')).take i) ++ text ((scan p (l ++ l')).drop i) = l ++ l' := by
      rw [← text_append, List.take_append_drop, text_scan]
    rw [hi] at hall
    exact List.append_cancel_left hall
  have htake := scan_take p i (l ++ l')
  have hrest := scan_drop p i (l ++ l')
  rw [hi] at htake
  rw [hdrop] at hrest
  rw [htake, hrest, List.take_append_drop]

/-- The cut is inside of a match. -/
def Inside (p : Pattern α) (l l' : List α) : Prop :=
  ∃ u v n, l = u ++ v ∧ scan p (u ++ (v ++ l')) = scan p u ++ scan p (v ++ l') ∧
    p.len (v ++ l') = some n ∧ v ≠ [] ∧ v.length < n

/-- A cut is between tokens, or inside of a match. -/
theorem boundary_or_inside (p : Pattern α) (l l' : List α) : Boundary p l l' ∨ Inside p l l' := by
  generalize hw : l ++ l' = w
  -- along the tokens of the whole text, up to the cut
  induction w using scan_induction p generalizing l with
  | nil =>
    rw [List.append_eq_nil_iff] at hw
    exact .inl ⟨0, by simp [hw.1]⟩
  | one a w hnone ih =>
    cases l with
    | nil => exact .inl ⟨0, rfl⟩
    | cons b l =>
      rw [List.cons_append] at hw
      obtain ⟨rfl, rfl⟩ := List.cons.inj hw
      rcases ih l rfl with ⟨i, hi⟩ | ⟨u, v, n, rfl, hscan, hlen, hv, hlt⟩
      · left
        refine ⟨i + 1, ?_⟩
        rw [List.cons_append, scan_one hnone, List.take_succ_cons, text_cons, hi]
        rfl
      · right
        rw [List.append_assoc] at hnone
        refine ⟨b :: u, v, n, rfl, ?_, hlen, hv, hlt⟩
        rw [List.cons_append, scan_one hnone, hscan, scan_one (len_none_of_append _ hnone)]
        rfl
  | hit w n hlen ih =>
    subst hw
    by_cases hle : n ≤ l.length
    · have hm : (l.take n).length = n := List.length_take_of_le hle
      have hdrop : (l ++ l').drop n = l.drop n ++ l' := List.drop_append_of_le_length hle
      have hsplit : l.take n ++ (l.drop n ++ l') = l ++ l' := by
        rw [← List.append_assoc, List.take_append_drop]
      rcases ih (l.drop n) hdrop.symm with ⟨i, hi⟩ | ⟨u, v, n', huv, hscan, hlen', hv, hlt⟩
      · left
        refine ⟨i + 1, ?_⟩
        rw [scan_hit hlen, List.take_succ_cons, text_cons, hdrop, hi, Token.elems,
          List.take_append_of_le_length hle, List.take_append_drop]
      · right
        have hhit : p.len (l.take n ++ (u ++ (v ++ l'))) = some (l.take n).length := by
          rw [← List.append_assoc u, ← huv, hsplit, hlen, hm]
        have hhit' : p.len (l.take n ++ ((u ++ (v ++ l')) ++ [])) = some (l.take n).length := by
          rwa [List.append_nil]
        refine ⟨l.take n ++ u, v, n', ?_, ?_, hlen', hv, hlt⟩
        · rw [List.append_assoc, ← huv, List.take_append_drop]
        · rw [List.append_assoc, scan_hit_append hhit', hscan, scan_hit_append hhit]
          rfl
    · cases l with
      | nil => exact .inl ⟨0, rfl⟩
      | cons b l =>
        exact .inr ⟨[], b :: l, n, rfl, rfl, hlen, nofun, Nat.lt_of_not_le hle⟩

/-! ## Replacing -/

/-- A match is replaced. -/
def Token.replace (f : List α → List α) : Token α → List α
  | .one a => [a]
  | .hit m => f m

/-- Every match is replaced. -/
def replaceAll (p : Pattern α) (f : List α → List α) (l : List α) : List α :=
  (scan p l).flatMap (Token.replace f)

variable {f : List α → List α}

@[simp]
theorem replaceAll_nil (p : Pattern α) (f : List α → List α) : replaceAll p f [] = [] := rfl

theorem replaceAll_one (h : p.len (a :: l) = none) :
    replaceAll p f (a :: l) = a :: replaceAll p f l := by
  rw [replaceAll, scan_one h]
  rfl

theorem replaceAll_hit (h : p.len l = some n) :
    replaceAll p f l = f (l.take n) ++ replaceAll p f (l.drop n) := by
  rw [replaceAll, scan_hit h]
  rfl

/-- A match in front of a text -/
theorem replaceAll_match (h : p.len (m ++ l) = some m.length) :
    replaceAll p f (m ++ l) = f m ++ replaceAll p f l := by
  rw [replaceAll_hit h, List.take_left, List.drop_left]

/-- Parts of a text that are replaced one by one -/
theorem replaceAll_flatMap {β : Type} {u v : β → List α} {s : List β}
    (h : ∀ x ∈ s, ∀ rest, replaceAll p f (u x ++ rest) = v x ++ replaceAll p f rest)
    (l : List α) : replaceAll p f (s.flatMap u ++ l) = s.flatMap v ++ replaceAll p f l := by
  induction s with
  | nil => rfl
  | cons x s ih =>
    rw [List.forall_mem_cons] at h
    rw [List.flatMap_cons, List.flatMap_cons, List.append_assoc, h.1, ih h.2, List.append_assoc]

theorem replaceAll_append (h : Boundary p l l') (f : List α → List α) :
    replaceAll p f (l ++ l') = replaceAll p f l ++ replaceAll p f l' := by
  unfold replaceAll
  rw [scan_append h, List.flatMap_append]

/-- The pattern that matches one word only -/
def Pattern.word [DecidableEq α] (w : List α) (hw : w ≠ []) : Pattern α where
  len l := if w <+: l then some w.length else none
  pos h := by
    split at h
    · cases h
      exact List.length_pos_iff.mpr hw
    · cases h
  le h := by
    split at h
    · rename_i hpre
      cases h
      exact hpre.length_le
    · cases h
  inside l' h hle := by
    split at h
    · rename_i hpre
      cases h
      rw [if_pos (List.prefix_of_prefix_length_le hpre (List.prefix_append _ _) hle)]
    · cases h
  longer l' h := by
    split at h
    · rename_i hpre
      exact ⟨w.length, if_pos (hpre.trans (List.prefix_append _ _))⟩
    · cases h

/-- The word in front of a text -/
theorem replaceAll_word [DecidableEq α] (hw : w ≠ []) (l : List α) :
    replaceAll (.word w hw) f (w ++ l) = f w ++ replaceAll (.word w hw) f l :=
  replaceAll_match (if_pos (List.prefix_append _ _))

/-- An element that the word does not begin with -/
theorem replaceAll_word_of_ne [DecidableEq α] (hw : a :: w ≠ []) (hb : b ≠ a) (l : List α) :
    replaceAll (.word (a :: w) hw) f (b :: l) = b :: replaceAll (.word (a :: w) hw) f l := by
  refine replaceAll_one (if_neg fun hpre => hb ?_)
  exact (List.cons_prefix_cons.mp hpre).1.symm

end Scan
