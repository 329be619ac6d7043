import Mathlib.Data.Nat.Digits.Defs

/-!
# Numbers in front of a separator

A number in decimal, a separator and a text are often put together to a key. The parts can be read
off the key again, whatever the text is.

- `split_first`: what stands before the first separator, and what stands behind it.
- `toString_inj`, `notMem_toString`: numerals.
- `dashed_inj`, `dashed_string_inj`: the separator may be the sign of a number, too.
-/

namespace Numeral

theorem isDigit_of_mem_repr {n : Nat} (h : c ∈ n.repr.toList) : c.isDigit = true := by
  rw [Nat.toList_repr] at h
  exact Nat.isDigit_of_mem_toDigits (by decide) (by decide) h

theorem repr_inj {m n : Nat} (h : m.repr = n.repr) : m = n := by
  have hlist := congrArg String.toList h
  rw [Nat.toList_repr, Nat.toList_repr] at hlist
  rw [← Nat.ofDigitChars_ten_toDigits (n := m), hlist, Nat.ofDigitChars_ten_toDigits]

theorem toString_ofNat (n : Nat) : (toString (Int.ofNat n)).toList = n.repr.toList := rfl

theorem toString_negSucc (n : Nat) :
    (toString (Int.negSucc n)).toList = '-' :: (n + 1).repr.toList := by
  rw [show toString (Int.negSucc n) = "-" ++ (n + 1).repr from rfl, String.toList_append]
  rfl

/-- A number has only digits and maybe a sign. -/
theorem notMem_toString {c : Char} (hdigit : c.isDigit = false) (hsign : c ≠ '-') (d : Int) :
    c ∉ (toString d).toList := by
  have hnat : ∀ n : Nat, c ∉ n.repr.toList := by
    intro n hmem
    rw [isDigit_of_mem_repr hmem] at hdigit
    cases hdigit
  cases d with
  | ofNat n => exact hnat n
  | negSucc n =>
    rw [toString_negSucc]
    exact List.not_mem_cons_of_ne_of_not_mem hsign (hnat _)

/-- A natural number does not start with a sign. -/
theorem repr_ne_dash (n : Nat) (x y : List Char) : n.repr.toList ++ x ≠ '-' :: y := by
  intro h
  cases hrepr : n.repr.toList with
  | nil =>
    rw [Nat.toList_repr] at hrepr
    exact Nat.toDigits_ne_nil hrepr
  | cons c cs =>
    rw [hrepr, List.cons_append] at h
    have hdigit : c.isDigit = true := isDigit_of_mem_repr (hrepr ▸ List.mem_cons_self)
    rw [(List.cons.inj h).1] at hdigit
    exact absurd hdigit (by decide)

theorem split_first (ha : c ∉ a) (hb : c ∉ b) (h : a ++ c :: x = b ++ c :: y) : a = b ∧ x = y := by
  induction a generalizing b with
  | nil =>
    cases b with
    | nil => exact ⟨rfl, (List.cons.inj h).2⟩
    | cons c b => exact absurd ((List.cons.inj h).1 ▸ List.mem_cons_self) hb
  | cons c a ih =>
    cases b with
    | nil => exact absurd ((List.cons.inj h).1 ▸ List.mem_cons_self) ha
    | cons c' b =>
      obtain ⟨rfl, hrest⟩ := List.cons.inj h
      obtain ⟨rfl, rfl⟩ := ih (fun hmem => ha (List.mem_cons_of_mem _ hmem))
        (fun hmem => hb (List.mem_cons_of_mem _ hmem)) hrest
      exact ⟨rfl, rfl⟩

/-- A number and what stands behind a dash -/
theorem dashed_inj {d e : Int}
    (h : (toString d).toList ++ '-' :: x = (toString e).toList ++ '-' :: y) : d = e ∧ x = y := by
  have hdash : ∀ n : Nat, '-' ∉ n.repr.toList :=
    fun n hmem => absurd (isDigit_of_mem_repr hmem) (by decide)
  have hrepr : ∀ {m n : Nat}, m.repr.toList ++ '-' :: x = n.repr.toList ++ '-' :: y →
      m = n ∧ x = y := by
    intro m n heq
    obtain ⟨hmn, hxy⟩ := split_first (hdash m) (hdash n) heq
    exact ⟨repr_inj (String.toList_injective hmn), hxy⟩
  cases d with
  | ofNat m =>
    cases e with
    | ofNat n =>
      obtain ⟨rfl, hxy⟩ := hrepr h
      exact ⟨rfl, hxy⟩
    | negSucc n =>
      rw [toString_negSucc, toString_ofNat] at h
      exact absurd h (repr_ne_dash m _ _)
  | negSucc m =>
    cases e with
    | ofNat n =>
      rw [toString_negSucc, toString_ofNat] at h
      exact absurd h.symm (repr_ne_dash n _ _)
    | negSucc n =>
      rw [toString_negSucc, toString_negSucc] at h
      obtain ⟨hmn, hxy⟩ := hrepr (List.cons.inj h).2
      exact ⟨congrArg Int.negSucc (Nat.succ.inj hmn), hxy⟩

/-- A key made of a number and a text -/
theorem dashed_string_inj {d e : Int}
    (h : toString d ++ "-" ++ x = toString e ++ "-" ++ y) : d = e ∧ x = y := by
  have hlist := congrArg String.toList h
  simp only [String.toList_append, List.append_assoc] at hlist
  obtain ⟨hde, hxy⟩ := dashed_inj hlist
  exact ⟨hde, String.toList_injective hxy⟩

theorem toString_inj {d e : Int} (h : toString d = toString e) : d = e := by
  have hlist : (toString d).toList ++ ['-'] = (toString e).toList ++ ['-'] := by rw [h]
  exact (dashed_inj hlist).1

end Numeral
