import SimStudio.Json.Text
import SimStudio.Proofs.Number.Digits

/-!
# The Characters of Numbers

Which characters a written number is made of: letters, digits, signs and the
point. Whoever lays a number out next to other text relies on this and on
nothing else about its digits, because none of these characters ends a line,
opens a quote or closes a list.

## Main definitions

* `isNumberMark`: The characters of numbers.

## Theorems

* `intText_eq`: An integer is its sign and its digits.
* `isNumberMark_of_mem_intText`, `isNumberMark_of_mem_text`,
  `isNumberMark_of_mem_compact`: Written numbers consist of these characters.
* `isNumberMark_of_mem_padded`: So do the digits of any radix.
-/

namespace SimStudio

/-- The characters of numbers. -/
def isNumberMark (c : Char) : Bool := c.isAlphanum || c == '-' || c == '+' || c == '.'

theorem isNumberMark_of_isDigit {c : Char} (h : c.isDigit = true) : isNumberMark c = true := by
  simp only [isNumberMark, Char.isAlphanum, h, Bool.or_true, Bool.true_or]

/-- An integer is its sign and the digits of its magnitude. -/
theorem intText_eq (i : Int) :
    (toString i).toList = (if i < 0 then ['-'] else []) ++ Digits.text i.natAbs := by
  cases i with
  | ofNat n =>
      rw [if_neg (by exact Int.not_lt.mpr (Int.natCast_nonneg n))]
      exact Nat.toList_repr
  | negSucc n =>
      have hrepr : toString (Int.negSucc n) = "-" ++ (n + 1).repr := rfl
      rw [if_pos (Int.negSucc_lt_zero n), hrepr, String.toList_append, Nat.toList_repr]
      rfl

theorem isNumberMark_of_mem_intText {i : Int} {c : Char} (h : c ∈ (toString i).toList) :
    isNumberMark c = true := by
  rw [intText_eq, List.mem_append] at h
  rcases h with h | h
  · split at h
    · rw [List.mem_singleton.mp h]
      rfl
    · exact absurd h List.not_mem_nil
  · exact isNumberMark_of_isDigit (Digits.isDigit_of_mem_text h)

theorem isNumberMark_digitChar (d : Nat) (h : d < 16) : isNumberMark d.digitChar = true := by
  have hall : ∀ d < 16, isNumberMark d.digitChar = true := by decide
  exact hall d h

theorem isNumberMark_toUpper_digitChar (d : Nat) (h : d < 16) :
    isNumberMark d.digitChar.toUpper = true := by
  have hall : ∀ d < 16, isNumberMark d.digitChar.toUpper = true := by decide
  exact hall d h

/-- The digits of any radix up to sixteen are number marks, in the case in
    which `shape` writes them. -/
theorem isNumberMark_of_mem_map_toDigits (radix : Nat) (shape : Char → Char) (hr : 1 < radix)
    (hr' : radix ≤ 16) (hshape : ∀ d < 16, isNumberMark (shape d.digitChar) = true) (n : Nat) :
    ∀ c ∈ (Nat.toDigits radix n).map shape, isNumberMark c = true := by
  induction n using Nat.strongRecOn with
  | ind n ih =>
      intro c hc
      rw [Nat.toDigits_eq_if hr] at hc
      by_cases hn : n < radix
      · rw [if_pos hn, List.map_singleton, List.mem_singleton] at hc
        rw [hc]
        exact hshape n (by omega)
      · rw [if_neg hn, List.map_append, List.mem_append] at hc
        rcases hc with hc | hc
        · exact ih (n / radix) (Nat.div_lt_self (by omega) hr) c hc
        · rw [List.map_singleton, List.mem_singleton] at hc
          have hmod : n % radix < radix := Nat.mod_lt n (by omega)
          rw [hc]
          exact hshape (n % radix) (by omega)

theorem isNumberMark_of_mem_padded {radix width n : Nat} {upper : Bool} {c : Char}
    (hr : 1 < radix) (hr' : radix ≤ 16) (h : c ∈ Digits.padded radix width upper n) :
    isNumberMark c = true := by
  simp only [Digits.padded, List.mem_append] at h
  rcases h with h | h
  · rw [List.eq_of_mem_replicate h]
    rfl
  · cases upper with
    | false =>
        have hall := isNumberMark_of_mem_map_toDigits radix id hr hr' isNumberMark_digitChar n
        rw [List.map_id] at hall
        exact hall c h
    | true =>
        exact isNumberMark_of_mem_map_toDigits radix Char.toUpper hr hr'
          isNumberMark_toUpper_digitChar n c h

namespace FloatLayout

theorem isNumberMark_of_mem_positionalText {layout : FloatLayout} {d : Decimal} {c : Char}
    (h : c ∈ layout.positionalText d) : isNumberMark c = true := by
  have hdigit : ∀ x ∈ Digits.text d.coefficient, isNumberMark x = true := fun x hx =>
    isNumberMark_of_isDigit (Digits.isDigit_of_mem_text hx)
  simp only [positionalText] at h
  split at h
  · simp only [List.mem_append] at h
    rcases h with (h | h) | h
    · exact hdigit c h
    · rw [List.eq_of_mem_replicate h]
      rfl
    · cases hz : layout.pointZero with
      | false => simp [hz] at h
      | true =>
          have hc : c = '.' ∨ c = '0' := by simpa [hz] using h
          rcases hc with rfl | rfl <;> rfl
  · split at h
    · rcases List.mem_append.mp h with h | h
      · exact hdigit c (List.mem_of_mem_take h)
      · rcases List.mem_cons.mp h with rfl | h
        · rfl
        · exact hdigit c (List.mem_of_mem_drop h)
    · simp only [List.mem_cons, List.mem_append] at h
      rcases h with rfl | rfl | h | h
      · rfl
      · rfl
      · rw [List.eq_of_mem_replicate h]
        rfl
      · exact hdigit c h

theorem isNumberMark_of_mem_scientificText {layout : FloatLayout} {d : Decimal} {c : Char}
    (h : c ∈ layout.scientificText d) : isNumberMark c = true := by
  have hdigit : ∀ n, ∀ x ∈ Digits.text n, isNumberMark x = true := fun n x hx =>
    isNumberMark_of_isDigit (Digits.isDigit_of_mem_text hx)
  simp only [scientificText, List.mem_append, List.mem_cons] at h
  rcases h with (h | h) | rfl | h | h
  · exact hdigit _ c (List.mem_of_mem_take h)
  · split at h
    · rcases List.mem_cons.mp h with rfl | h
      · rfl
      · exact hdigit _ c (List.mem_of_mem_drop h)
    · exact absurd h List.not_mem_nil
  · rfl
  · split at h
    · rw [List.mem_singleton.mp h]
      rfl
    · split at h
      · rw [List.mem_singleton.mp h]
        rfl
      · exact absurd h List.not_mem_nil
  · exact hdigit _ c h

theorem isNumberMark_of_mem_signedText {layout : FloatLayout} {negative : Bool} {a : Magnitude}
    {c : Char} (h : c ∈ (layout.signedText negative a).toList) : isNumberMark c = true := by
  rw [signedText, String.toList_ofList, List.mem_append] at h
  rcases h with h | h
  · split at h
    · rw [List.mem_singleton.mp h]
      rfl
    · exact absurd h List.not_mem_nil
  · simp only [magnitudeText] at h
    split at h
    · exact isNumberMark_of_mem_positionalText h
    · split at h
      · exact isNumberMark_of_mem_positionalText h
      · exact isNumberMark_of_mem_scientificText h

theorem isNumberMark_of_mem_text {layout : FloatLayout} {x : Binary64} {c : Char}
    (h : c ∈ (layout.text x).toList) : isNumberMark c = true := by
  cases x with
  | finite negative a => exact isNumberMark_of_mem_signedText h
  | infinite negative =>
      cases negative with
      | false => exact List.all_eq_true.mp (show "inf".toList.all isNumberMark by decide) c h
      | true => exact List.all_eq_true.mp (show "-inf".toList.all isNumberMark by decide) c h
  | nan => exact List.all_eq_true.mp (show "NaN".toList.all isNumberMark by decide) c h

end FloatLayout

theorem JsonNumber.isNumberMark_of_mem_compact {n : JsonNumber} {c : Char}
    (h : c ∈ n.compact.toList) : isNumberMark c = true := by
  cases n with
  | int i fits => exact isNumberMark_of_mem_intText h
  | float negative a => exact FloatLayout.isNumberMark_of_mem_signedText h

end SimStudio
