import SimStudio.Configuration.Field
import SimStudio.Proofs.Number.Digits
import SimStudio.Proofs.Text.Runs

/-!
# Texts in Quotes

A text in quotes ends where its closing quote says so, whatever follows, and
determines the text.

There are two ways of quoting, one for configurations and one for JSON. They
differ in which characters they escape and by which letters, but not in how an
escape is told from what follows it: a character stands for itself, or a
backslash comes first, and then either a letter or the letter `u` with four
digits. `Escaped` says this much, and `quotedText_unique` needs nothing else.

## Main definitions

* `Escaped`: The forms in which a character can stand in quotes.
* `fieldLetter?`, `Json.letter?`: The characters that have a letter of their own.

## Theorems

* `Escaped.unique`: The form of a character determines it, and where it ends.
* `quotedText_unique`: So does the form of a text.
* `quote_unique`, `Json.quoted_unique`: The two ways of quoting.
* `keyText_unique`: The same for keys, which may stand without quotes.
-/

namespace SimStudio

/-- The forms in which a character can stand in quotes, where `letter` reads the
    escapes of one letter. -/
inductive Escaped (upper : Bool) (letter : Char → Option Char) (c : Char) : List Char → Prop
  | plain (hquote : c ≠ '"') (hbackslash : c ≠ '\\') : Escaped upper letter c [c]
  | letter {e : Char} (he : e ≠ 'u') (h : letter e = some c) : Escaped upper letter c ['\\', e]
  | code (h : c.toNat < 16 ^ 4) :
      Escaped upper letter c ('\\' :: 'u' :: Digits.padded 16 4 upper c.toNat)

section Unique

variable {upper : Bool} {letter : Char → Option Char}

/-- The form of a character determines it, and where it ends. -/
theorem Escaped.unique {c c' : Char} {xs xs' rest rest' : List Char}
    (h : Escaped upper letter c xs) (h' : Escaped upper letter c' xs')
    (heq : xs ++ rest = xs' ++ rest') : c = c' ∧ rest = rest' := by
  cases h with
  | plain hquote hbackslash =>
      cases h' with
      | plain => exact List.cons.inj heq
      | letter => exact absurd (List.cons.inj heq).1 hbackslash
      | code => exact absurd (List.cons.inj heq).1 hbackslash
  | letter he hletter =>
      cases h' with
      | plain _ hbackslash => exact absurd (List.cons.inj heq).1.symm hbackslash
      | letter _ hletter' =>
          obtain ⟨rfl, hrest⟩ := List.cons.inj (List.cons.inj heq).2
          rw [hletter, Option.some.injEq] at hletter'
          exact ⟨hletter', hrest⟩
      | code => exact absurd (List.cons.inj (List.cons.inj heq).2).1 he
  | code hlt =>
      cases h' with
      | plain _ hbackslash => exact absurd (List.cons.inj heq).1.symm hbackslash
      | letter he => exact absurd (List.cons.inj (List.cons.inj heq).2).1.symm he
      | code hlt' =>
          -- Four digits on both sides, so that they end at the same place.
          have hdigits := (List.cons.inj (List.cons.inj heq).2).2
          have hlength := Digits.length_padded 16 4 upper c.toNat (by decide) (by decide) hlt
          have hlength' := Digits.length_padded 16 4 upper c'.toNat (by decide) (by decide) hlt'
          obtain ⟨htext, hrest⟩ := List.append_inj hdigits (hlength.trans hlength'.symm)
          have hvalue := Digits.value?_padded 16 4 upper c.toNat (by decide) (by decide)
          rw [htext, Digits.value?_padded 16 4 upper c'.toNat (by decide) (by decide),
            Option.some.injEq] at hvalue
          exact ⟨Char.toNat_inj.mp hvalue.symm, hrest⟩

theorem Escaped.head?_ne {c : Char} {xs : List Char} (h : Escaped upper letter c xs) :
    ∃ x ys, xs = x :: ys ∧ x ≠ '"' := by
  cases h with
  | plain hquote => exact ⟨c, [], rfl, hquote⟩
  | letter => exact ⟨'\\', _, rfl, by decide⟩
  | code => exact ⟨'\\', _, rfl, by decide⟩

/-- The form of a text determines it, and where it ends. -/
theorem quotedText_unique {code : Char → List Char}
    (hcode : ∀ c, Escaped upper letter c (code c)) {cs cs' rest rest' : List Char}
    (heq : cs.flatMap code ++ '"' :: rest = cs'.flatMap code ++ '"' :: rest') :
    cs = cs' ∧ rest = rest' := by
  induction cs generalizing cs' with
  | nil =>
      cases cs' with
      | nil => exact ⟨rfl, (List.cons.inj heq).2⟩
      | cons c' cs' =>
          obtain ⟨x, ys, hx, hne⟩ := (hcode c').head?_ne
          rw [List.flatMap_cons, hx] at heq
          exact absurd (List.cons.inj heq).1.symm hne
  | cons c cs ih =>
      cases cs' with
      | nil =>
          obtain ⟨x, ys, hx, hne⟩ := (hcode c).head?_ne
          rw [List.flatMap_cons, hx] at heq
          exact absurd (List.cons.inj heq).1 hne
      | cons c' cs' =>
          rw [List.flatMap_cons, List.flatMap_cons, List.append_assoc, List.append_assoc] at heq
          obtain ⟨rfl, htail⟩ := (hcode c).unique (hcode c') heq
          obtain ⟨rfl, hrest⟩ := ih htail
          exact ⟨rfl, hrest⟩

end Unique

/-- The characters that have a letter of their own in a configuration. -/
def fieldLetter? (e : Char) : Option Char :=
  match e with
  | '"' => some '"'
  | '\\' => some '\\'
  | 'n' => some '\n'
  | 'r' => some '\r'
  | 't' => some '\t'
  | _ => none

theorem escaped_quotedChar (c : Char) : Escaped true fieldLetter? c (quotedChar c) := by
  unfold quotedChar
  split
  · exact .letter (by decide) rfl
  · exact .letter (by decide) rfl
  · exact .letter (by decide) rfl
  · exact .letter (by decide) rfl
  · exact .letter (by decide) rfl
  · rename_i hquote hbackslash _ _ _
    split
    · rename_i hspecial
      refine .code ?_
      simp only [Bool.or_eq_true, Text.isControl, isHazard, Bool.and_eq_true, decide_eq_true_eq,
        beq_iff_eq] at hspecial
      rcases hspecial with hcontrol | (rfl | rfl) | rfl
      · omega
      · decide
      · decide
      · decide
    · exact .plain hquote hbackslash

/-- A text in quotes determines the text, and where it ends. -/
theorem quote_unique {s s' : String} {rest rest' : List Char}
    (heq : (quote s).toList ++ rest = (quote s').toList ++ rest') : s = s' ∧ rest = rest' := by
  rw [quote, quote, String.toList_ofList, String.toList_ofList, List.cons_append, List.cons_append,
    List.append_assoc, List.append_assoc] at heq
  obtain ⟨htext, hrest⟩ := quotedText_unique escaped_quotedChar (List.cons.inj heq).2
  exact ⟨String.toList_inj.mp htext, hrest⟩

/-- Whether a character can stand in an identifier. -/
def isIdentifierMark (c : Char) : Bool := isIdentifierStart c || c.isDigit

theorem isIdentifierMark_of_mem {s : String} (hs : isIdentifier s = true) {c : Char}
    (h : c ∈ s.toList) : isIdentifierMark c = true := by
  rw [isIdentifier] at hs
  cases hcs : s.toList with
  | nil =>
      rw [hcs] at h
      exact absurd h List.not_mem_nil
  | cons x xs =>
      rw [hcs] at hs h
      obtain ⟨hx, hxs⟩ := Bool.and_eq_true_iff.mp hs
      rcases List.mem_cons.mp h with rfl | h
      · rw [isIdentifierMark, hx, Bool.true_or]
      · exact List.all_eq_true.mp hxs c h

/-- A key begins like an identifier or with a quote. -/
theorem exists_keyText_eq (key : String) :
    ∃ c cs, (keyText key).toList = c :: cs ∧ (isIdentifierStart c = true ∨ c = '"') := by
  rw [keyText]
  split
  · rename_i hkey
    have hidentifier := (Bool.and_eq_true_iff.mp hkey).1
    rw [isIdentifier] at hidentifier
    cases hcs : key.toList with
    | nil =>
        rw [hcs] at hidentifier
        cases hidentifier
    | cons c cs =>
        rw [hcs] at hidentifier
        exact ⟨c, cs, rfl, .inl (Bool.and_eq_true_iff.mp hidentifier).1⟩
  · rw [quote, String.toList_ofList]
    exact ⟨'"', _, rfl, .inr rfl⟩

/-- A key is determined where a colon follows it. -/
theorem keyText_unique {key key' : String} {rest rest' : List Char}
    (heq : (keyText key).toList ++ ':' :: rest = (keyText key').toList ++ ':' :: rest') :
    key = key' ∧ rest = rest' := by
  have hcolon : ∀ rest, ∀ c ∈ (':' :: rest : List Char).head?, isIdentifierMark c = false :=
    fun rest c hc => by
      rw [← Option.some.inj hc]
      rfl
  -- An identifier holds no quote, so it is never taken for a key in quotes.
  have hmixed : ∀ {key key' : String} {rest rest' : List Char}, isIdentifier key = true →
      key.toList ++ ':' :: rest ≠ (quote key').toList ++ rest' := by
    intro key key' rest rest' hkey h
    rw [quote, String.toList_ofList, List.cons_append] at h
    cases hcs : key.toList with
    | nil =>
        rw [hcs] at h
        exact absurd (List.cons.inj h).1 (by decide)
    | cons c cs =>
        have hc := isIdentifierMark_of_mem hkey (hcs ▸ List.mem_cons_self)
        rw [hcs] at h
        rw [(List.cons.inj h).1] at hc
        exact absurd hc (by decide)
  rw [keyText, keyText] at heq
  split at heq <;> split at heq
  · rename_i hkey hkey'
    obtain ⟨hname, hrest⟩ := Text.run_unique
      (fun c hc => isIdentifierMark_of_mem (Bool.and_eq_true_iff.mp hkey).1 hc)
      (fun c hc => isIdentifierMark_of_mem (Bool.and_eq_true_iff.mp hkey').1 hc)
      (hcolon rest) (hcolon rest') heq
    exact ⟨String.toList_inj.mp hname, (List.cons.inj hrest).2⟩
  · rename_i hkey _
    exact absurd heq (hmixed (Bool.and_eq_true_iff.mp hkey).1)
  · rename_i hkey
    exact absurd heq.symm (hmixed (Bool.and_eq_true_iff.mp hkey).1)
  · obtain ⟨rfl, hrest⟩ := quote_unique heq
    exact ⟨rfl, (List.cons.inj hrest).2⟩

namespace Json

/-- The characters that have a letter of their own in JSON. -/
def letter? (e : Char) : Option Char :=
  match e with
  | '"' => some '"'
  | '\\' => some '\\'
  | 'b' => some '\x08'
  | 'f' => some '\x0c'
  | 'n' => some '\n'
  | 'r' => some '\r'
  | 't' => some '\t'
  | _ => none

theorem escaped_escaped (c : Char) : Escaped false letter? c (escaped c) := by
  unfold escaped
  split
  · exact .letter (by decide) rfl
  · exact .letter (by decide) rfl
  · exact .letter (by decide) rfl
  · exact .letter (by decide) rfl
  · exact .letter (by decide) rfl
  · exact .letter (by decide) rfl
  · exact .letter (by decide) rfl
  · rename_i hquote hbackslash _ _ _ _ _
    split
    · rename_i hlow
      exact .code (by omega)
    · exact .plain hquote hbackslash

/-- A JSON string determines its text, and where it ends. -/
theorem quoted_unique {s s' : String} {rest rest' : List Char}
    (heq : (quoted s).toList ++ rest = (quoted s').toList ++ rest') : s = s' ∧ rest = rest' := by
  rw [quoted, quoted, String.toList_ofList, String.toList_ofList, List.cons_append,
    List.cons_append, List.append_assoc, List.append_assoc] at heq
  obtain ⟨htext, hrest⟩ := quotedText_unique escaped_escaped (List.cons.inj heq).2
  exact ⟨String.toList_inj.mp htext, hrest⟩

end Json

end SimStudio
