import SimStudio.Number.Digits

/-!
# Digit Strings Read Back

What is written in digits reads back as the number it was written from.

Reading is a fold over the digits, so that it splits at every place of a run:
`readOn_append`. Writing follows the recursion of the library's digits, which
takes the last digit off. The two meet in `readOn_toDigits`, for every radix up
to sixteen, and everything about padding and bounds is read off it.

## Theorems

* `digit?_digitChar`: A digit that was written has the value it was written for.
* `readOn_append`: A run is read piece by piece.
* `readOn_toDigits`: The digits of a number read as that number.
* `value?_text`: The same for the decimal digits of a number.
* `value?_padded`: The same for digits that are filled up with zeros.
* `text_injective`: Different numbers have different digits.
* `length_padded`: A number below the bound of a width takes that width.
-/

namespace SimStudio

namespace Digits

theorem digit?_digitChar (d : Nat) (h : d < 16) : digit? d.digitChar = some d := by
  have hall : ∀ d < 16, digit? d.digitChar = some d := by decide
  exact hall d h

theorem digit?_toUpper_digitChar (d : Nat) (h : d < 16) :
    digit? d.digitChar.toUpper = some d := by
  have hall : ∀ d < 16, digit? d.digitChar.toUpper = some d := by decide
  exact hall d h

/-- A run is read piece by piece. -/
theorem readOn_append (radix n : Nat) (xs ys : List Char) :
    readOn radix n (xs ++ ys) = (readOn radix n xs).bind fun m => readOn radix m ys := by
  induction xs generalizing n with
  | nil => rfl
  | cons x xs ih =>
      simp only [List.cons_append, readOn]
      cases digit? x with
      | none => rfl
      | some d =>
          by_cases hd : d < radix
          · simp only [if_pos hd, ih]
          · simp only [if_neg hd, Option.bind_none]

theorem readOn_singleton (radix n d : Nat) (c : Char) (hc : digit? c = some d) (hd : d < radix) :
    readOn radix n [c] = some (n * radix + d) := by
  simp only [readOn, hc, if_pos hd]

/-- The digits of a number read as that number, in whatever case they are
    written, as long as `shape` keeps their values. -/
theorem readOn_map_toDigits (radix : Nat) (shape : Char → Char) (hr : 1 < radix) (hr' : radix ≤ 16)
    (hshape : ∀ d < 16, digit? (shape d.digitChar) = some d) (n : Nat) :
    readOn radix 0 ((Nat.toDigits radix n).map shape) = some n := by
  induction n using Nat.strongRecOn with
  | ind n ih =>
      rw [Nat.toDigits_eq_if hr]
      by_cases hn : n < radix
      · rw [if_pos hn, List.map_singleton,
          readOn_singleton radix 0 n _ (hshape n (by omega)) hn, Nat.zero_mul, Nat.zero_add]
      · have hmod : n % radix < radix := Nat.mod_lt n (by omega)
        have hlast := hshape (n % radix) (by omega)
        rw [if_neg hn, List.map_append, readOn_append, ih (n / radix) (Nat.div_lt_self (by omega) hr),
          Option.bind_some, List.map_singleton, readOn_singleton radix _ _ _ hlast hmod,
          Nat.mul_comm, Nat.div_add_mod]

theorem readOn_toDigits (radix : Nat) (hr : 1 < radix) (hr' : radix ≤ 16) (n : Nat) :
    readOn radix 0 (Nat.toDigits radix n) = some n := by
  have h := readOn_map_toDigits radix id hr hr' digit?_digitChar n
  rwa [List.map_id] at h

theorem readOn_zeros (radix : Nat) (hr : 1 < radix) (k : Nat) (cs : List Char) :
    readOn radix 0 (List.replicate k '0' ++ cs) = readOn radix 0 cs := by
  induction k with
  | zero => rfl
  | succ k ih =>
      rw [List.replicate_succ, List.cons_append, readOn]
      have hzero : digit? '0' = some 0 := by decide
      simp only [hzero, if_pos (show 0 < radix by omega), Nat.zero_mul, Nat.add_zero]
      exact ih

theorem text_ne_nil (n : Nat) : text n ≠ [] := Nat.toDigits_ne_nil

/-- The decimal digits of a number read as that number. -/
theorem value?_text (n : Nat) : value? 10 (text n) = some n := by
  rw [value?, List.isEmpty_eq_false_iff.mpr (text_ne_nil n)]
  exact readOn_toDigits 10 (by omega) (by omega) n

/-- Different numbers have different digits. -/
theorem text_injective {m n : Nat} (h : text m = text n) : m = n := by
  have hm := value?_text m
  rw [h, value?_text n, Option.some.injEq] at hm
  exact hm.symm

theorem isDigit_of_mem_text {n : Nat} {c : Char} (h : c ∈ text n) : c.isDigit = true :=
  Nat.isDigit_of_mem_toDigits (by omega) (by omega) h

/-- A number that is not zero does not begin with a zero. -/
theorem head?_text_ne {n : Nat} (h : n ≠ 0) : (text n).head? ≠ some '0' := by
  induction n using Nat.strongRecOn with
  | ind n ih =>
      by_cases hn : n < 10
      · have hall : ∀ d < 10, d ≠ 0 → (Nat.toDigits 10 d).head? ≠ some '0' := by decide
        exact hall n hn h
      · rw [text, Nat.toDigits_of_base_le (by omega) (by omega)]
        cases hds : Nat.toDigits 10 (n / 10) with
        | nil => exact absurd hds Nat.toDigits_ne_nil
        | cons c cs =>
            have hhead := ih (n / 10) (by omega) (by omega)
            rw [text, hds] at hhead
            exact hhead

theorem padded_ne_nil (radix width : Nat) (upper : Bool) (n : Nat) :
    padded radix width upper n ≠ [] := by
  cases upper <;> simp [padded, Nat.toDigits_ne_nil]

/-- Digits that are filled up with zeros read as the number they stand for. -/
theorem value?_padded (radix width : Nat) (upper : Bool) (n : Nat) (hr : 1 < radix)
    (hr' : radix ≤ 16) : value? radix (padded radix width upper n) = some n := by
  rw [value?, List.isEmpty_eq_false_iff.mpr (padded_ne_nil radix width upper n)]
  simp only [padded, Bool.false_eq_true, if_false, readOn_zeros radix hr]
  cases upper with
  | false => exact readOn_toDigits radix hr hr' n
  | true => exact readOn_map_toDigits radix Char.toUpper hr hr' digit?_toUpper_digitChar n

/-- A number below the bound of a width takes exactly that width. -/
theorem length_padded (radix width : Nat) (upper : Bool) (n : Nat) (hr : 1 < radix)
    (hw : 0 < width) (h : n < radix ^ width) : (padded radix width upper n).length = width := by
  have hlen : (Nat.toDigits radix n).length ≤ width := (Nat.length_toDigits_le_iff hr hw).mpr h
  cases upper <;>
    simp only [padded, Bool.false_eq_true, if_true, if_false, List.length_append,
      List.length_replicate, List.length_map] <;> omega

end Digits

end SimStudio
