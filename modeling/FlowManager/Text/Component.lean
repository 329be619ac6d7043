import FlowManager.Text.Encode

/-!
# Values as components of URLs (model/utils.go)

`UrlEncoded` lets `url.Values` encode the value of an empty key, cuts off the equals sign, and then
replaces the plus signs and some escapes of the result, one kind after the other, by what
`encodeURIComponent` would have written. What comes out is the encoding of the bytes one by one.

- `replaceAll_sign`: a replacement passes through a text byte by byte of what it encodes.
- `urlEncoded_eq_escape`: `UrlEncoded` is percent encoding.
- `urlEncoded_faithful`: what is in the result, what it decodes to, and how it is put together.
-/

namespace FlowManager.Text

open Scan Uri

/-- What stands for a byte: one byte that is no percent sign, or a percent sign with two bytes that
are none -/
inductive Sign : Bytes → Prop where
  | byte (hb : b ≠ percent) : Sign [b]
  | escape (hh : h ≠ percent) (hl : l ≠ percent) : Sign [percent, h, l]

theorem sign_escapeByte (hkeep : keep percent = false) (b : UInt8) : Sign (escapeByte keep b) := by
  have hdigits : ∀ n : Fin 256, upperHex (.ofFin n / 16) ≠ percent ∧
      upperHex (.ofFin n % 16) ≠ percent := by
    decide +kernel
  unfold escapeByte
  split
  · rename_i hb
    refine .byte ?_
    rintro rfl
    rw [hkeep] at hb
    cases hb
  · exact .escape (hdigits b.toFin).1 (hdigits b.toFin).2

/-- An escape is replaced, and another sign is not: a match begins at a percent sign, and there is
none inside of a sign. -/
theorem replaceAll_sign (hsign : Sign sign) (rest : Bytes) :
    replaceAll (.word [percent, h, l] hw) (fun _ => new) (sign ++ rest) =
      (if sign = [percent, h, l] then new else sign) ++
        replaceAll (.word [percent, h, l] hw) (fun _ => new) rest := by
  cases hsign with
  | byte hb =>
    rw [List.singleton_append, replaceAll_word_of_ne hw hb, if_neg, List.singleton_append]
    intro heq
    cases heq
  | @escape h' l' hh hl =>
    split
    · rename_i heq
      rw [heq, replaceAll_word]
    · rename_i hne
      simp only [List.cons_append, List.nil_append]
      rw [replaceAll_one, replaceAll_word_of_ne hw hh, replaceAll_word_of_ne hw hl]
      refine if_neg fun hpre => hne ?_
      simp only [List.cons_prefix_cons] at hpre
      rw [← hpre.2.1, ← hpre.2.2.1]

/-- The bytes that stand for themselves: those of a query, and some signs more -/
def keeps (signs : String) (b : UInt8) : Bool := unreserved b || (ascii signs).contains b

/-- What `UrlEncoded` leaves as it is -/
def componentSafe : UInt8 → Bool := keeps "!()*"

/-- One of the replacements: a sign that was encoded is kept from now on. -/
theorem replace_escape (signs signs' : String) (hold : ascii old = [percent, h, l])
    (hkeep : keeps signs percent = false)
    (hnext : ∀ n : Fin 256, escapeByte (keeps signs') (.ofFin n) =
      if escapeByte (keeps signs) (.ofFin n) = ascii old then ascii new
      else escapeByte (keeps signs) (.ofFin n)) (s : Bytes) :
    replace old new (escape (keeps signs) s) = escape (keeps signs') s := by
  have hne : ascii old ≠ [] := by rw [hold]; nofun
  have hbyte : ∀ b ∈ s, ∀ rest, replaceAll (.word (ascii old) hne) (fun _ => ascii new)
      (escapeByte (keeps signs) b ++ rest) = escapeByte (keeps signs') b ++
        replaceAll (.word (ascii old) hne) (fun _ => ascii new) rest := by
    intro b _ rest
    have hb := hnext b.toFin
    simp only [hold] at hb ⊢
    exact (replaceAll_sign (sign_escapeByte hkeep b) rest).trans (congrArg (· ++ _) hb.symm)
  have hall := replaceAll_flatMap hbyte []
  rw [List.append_nil, replaceAll_nil, List.append_nil] at hall
  rw [replace, dif_pos hne, escape, escape, hall]

/-- The plus signs are replaced byte by byte. -/
theorem replace_plus (s : Bytes) :
    replace "+" "%20" s = s.flatMap fun b => if b = 0x2b then ascii "%20" else [b] := by
  have hne : ascii "+" ≠ [] := by decide
  have hplus : ascii "+" = [0x2b] := by decide
  rw [replace, dif_pos hne]
  simp only [hplus]
  induction s with
  | nil => rfl
  | cons b s ih =>
    rw [List.flatMap_cons]
    split
    · rename_i hb
      rw [hb, ← ih]
      exact replaceAll_word _ s
    · rename_i hb
      rw [replaceAll_word_of_ne _ hb, ih, List.singleton_append]

/-- A query without plus signs is percent encoding. -/
theorem replace_plus_queryEscape (s : Bytes) :
    replace "+" "%20" (queryEscape s) = escape unreserved s := by
  have hall : ∀ n : Fin 256,
      ((queryByte (.ofFin n)).flatMap fun b => if b = 0x2b then ascii "%20" else [b]) =
        escapeByte unreserved (.ofFin n) := by
    decide +kernel
  rw [replace_plus, queryEscape, List.flatMap_assoc, escape]
  exact congrArg (s.flatMap ·) (funext fun b => hall b.toFin)

theorem compatibleJSEncodeURIComponent_queryEscape (s : Bytes) :
    compatibleJSEncodeURIComponent (queryEscape s) = escape componentSafe s := by
  have hnone : escape unreserved s = escape (keeps "") s := by
    refine congrArg (s.flatMap ·) (funext fun b => congrFun (congrArg escapeByte ?_) b)
    exact funext fun b => (Bool.or_false _).symm
  rw [compatibleJSEncodeURIComponent, replace_plus_queryEscape, hnone]
  calc _ = replace "%2A" "*" (replace "%29" ")" (replace "%28" "(" (escape (keeps "!") s))) := by
        rw [replace_escape "" "!" rfl rfl (by decide +kernel)]
    _ = replace "%2A" "*" (replace "%29" ")" (escape (keeps "!(") s)) := by
        rw [replace_escape "!" "!(" rfl rfl (by decide +kernel)]
    _ = replace "%2A" "*" (escape (keeps "!()") s) := by
        rw [replace_escape "!(" "!()" rfl rfl (by decide +kernel)]
    _ = _ := replace_escape "!()" "!()*" rfl rfl (by decide +kernel) s

/-- `UrlEncoded` is percent encoding. -/
theorem urlEncoded_eq_escape (s : Bytes) : urlEncoded s = escape componentSafe s := by
  rw [← compatibleJSEncodeURIComponent_queryEscape, urlEncoded, encodeValue]
  cases s with
  | nil => rfl
  | cons b s =>
    have hpos : 0 < (queryByte b).length := by
      unfold queryByte
      split
      · exact Nat.one_pos
      · split <;> exact Nat.succ_pos _
    rw [if_neg, List.tail_cons]
    rw [List.length_cons, queryEscape, List.flatMap_cons, List.length_append]
    omega

/-- No sign that has a meaning in a URL stands for itself. -/
theorem notMem_urlEncoded (s : Bytes) (hb : b ∈ ascii "&=+#? ") : b ∉ urlEncoded s := by
  have hkeep : ∀ b ∈ ascii "&=+#? ", componentSafe b = false ∧ b ≠ percent := by decide +kernel
  have hnone : ∀ b ∈ ascii "&=+#? ", hexValue b = none := by decide +kernel
  have hdigit : ∀ {d v}, hexValue d = some v → d ≠ b := by
    rintro d v hvalue rfl
    cases (hnone d hb).symm.trans hvalue
  rw [urlEncoded_eq_escape]
  exact notMem_escape (hkeep b hb).1 (hkeep b hb).2 fun d =>
    ⟨hdigit (hexValue_upperHex d).1, hdigit (hexValue_upperHex d).2.1⟩

theorem decode_urlEncoded (s : Bytes) : Uri.decode (urlEncoded s) = some s := by
  rw [urlEncoded_eq_escape]
  exact decode_escape rfl s

/-- For every text, `UrlEncoded` gives a text of unreserved bytes, exclamation marks, parentheses,
asterisks and escapes only, in which no sign that has a meaning in a URL stands for itself; it
decodes to the text, and the encoding of two texts is that of one after that of the other. -/
theorem urlEncoded_faithful (s : Bytes) :
    encoded componentSafe (urlEncoded s) = true ∧
      (∀ b ∈ ascii "&=+#? ", b ∉ urlEncoded s) ∧
      Uri.decode (urlEncoded s) = some s ∧
      ∀ t, urlEncoded (s ++ t) = urlEncoded s ++ urlEncoded t := by
  refine ⟨?_, fun b hb => notMem_urlEncoded s hb, decode_urlEncoded s, fun t => ?_⟩
  · rw [urlEncoded_eq_escape]
    exact encoded_escape rfl s
  · simp only [urlEncoded_eq_escape]
    exact List.flatMap_append

end FlowManager.Text
