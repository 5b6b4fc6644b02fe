import SimStudio.Proofs.Number.Shortest

/-!
# Float Text Read Back

Every layout writes a magnitude so that it reads as that magnitude.

A layout only moves the point of the shortest decimal, with zeros where digits
are missing and an exponent where the point does not move. So what is read may
be another coefficient with another exponent, but it is the same number, and
`Magnitude.toMagnitude?_of_value` asks for no more.

## Theorems

* `Digits.decimalValue_append`: Digits behind others shift those.
* `FloatLayout.exists_parse?_positionalText`, `FloatLayout.parse?_scientificText`: The
  two shapes of a decimal.
* `FloatLayout.exists_parse?`: The text of a magnitude reads as it.
* `FloatLayout.signedText_injective`, `FloatLayout.text_injective`: Different
  numbers have different texts.
-/

namespace SimStudio

namespace Digits

theorem foldl_of_readOn {cs : List Char} {n m : Nat} (h : readOn 10 n cs = some m) :
    cs.foldl (fun n c => n * 10 + (digit? c).getD 0) n = m := by
  induction cs generalizing n with
  | nil => exact Option.some.inj h
  | cons c cs ih =>
      rw [readOn] at h
      cases hd : digit? c with
      | none =>
          rw [hd] at h
          cases h
      | some d =>
          simp only [hd] at h
          split at h
          · rw [List.foldl_cons, hd, Option.getD_some]
            exact ih h
          · cases h

theorem decimalValue_text (n : Nat) : decimalValue (text n) = n :=
  foldl_of_readOn (readOn_toDigits 10 (by omega) (by omega) n)

/-- Digits behind others shift those. -/
theorem decimalValue_append (xs ys : List Char) :
    decimalValue (xs ++ ys) = decimalValue xs * 10 ^ ys.length + decimalValue ys := by
  have hfrom : ∀ (ys : List Char) (n : Nat),
      ys.foldl (fun n c => n * 10 + (digit? c).getD 0) n =
        n * 10 ^ ys.length + ys.foldl (fun n c => n * 10 + (digit? c).getD 0) 0 := by
    intro ys
    induction ys with
    | nil => simp
    | cons y ys ih =>
        intro n
        rw [List.foldl_cons, List.foldl_cons, ih (n * 10 + _), ih (0 * 10 + _), List.length_cons]
        ring
  rw [decimalValue, List.foldl_append, hfrom]
  rfl

theorem decimalValue_zeros (k : Nat) : decimalValue (List.replicate k '0') = 0 := by
  have hread := readOn_zeros 10 (by omega) k []
  rw [List.append_nil] at hread
  exact foldl_of_readOn hread

end Digits

namespace Decimal

/-- A run of digits ends where no digit follows. -/
theorem takeWhile_isDigit {ds rest : List Char} (hds : ∀ c ∈ ds, c.isDigit = true)
    (hrest : ∀ c ∈ rest.head?, c.isDigit = false) :
    (ds ++ rest).takeWhile Char.isDigit = ds ∧ (ds ++ rest).dropWhile Char.isDigit = rest := by
  rw [List.takeWhile_append_of_pos hds, List.dropWhile_append_of_pos hds]
  cases rest with
  | nil => simp
  | cons c rest =>
      have hc : ¬ c.isDigit = true := Bool.not_eq_true _ ▸ hrest c rfl
      rw [List.takeWhile_cons_of_neg hc, List.dropWhile_cons_of_neg hc, List.append_nil]
      exact ⟨rfl, rfl⟩

/-- A decimal without a point. -/
theorem parse?_whole {whole rest : List Char} {n : Int} (hwhole : ∀ c ∈ whole, c.isDigit = true)
    (hne : whole ≠ []) (hrest : ∀ c ∈ rest.head?, c.isDigit = false)
    (hpoint : rest.head? ≠ some '.') (hn : exponent? rest = some n) :
    parse? (whole ++ rest) = some ⟨Digits.decimalValue whole, n⟩ := by
  obtain ⟨htake, hdrop⟩ := takeWhile_isDigit hwhole hrest
  have hfraction : fraction rest = ([], rest) := by
    unfold fraction
    split
    · exact absurd rfl hpoint
    · rfl
  simp only [parse?, htake, hdrop, hfraction, List.isEmpty_eq_false_iff.mpr hne, Bool.false_and,
    Bool.false_eq_true, if_false, hn, Option.map_some, List.append_nil, List.length_nil,
    Nat.cast_zero, sub_zero]

/-- A decimal with a point. -/
theorem parse?_point {whole ds rest : List Char} {n : Int}
    (hwhole : ∀ c ∈ whole, c.isDigit = true) (hne : whole ≠ [])
    (hds : ∀ c ∈ ds, c.isDigit = true) (hrest : ∀ c ∈ rest.head?, c.isDigit = false)
    (hn : exponent? rest = some n) :
    parse? (whole ++ '.' :: (ds ++ rest)) =
      some ⟨Digits.decimalValue (whole ++ ds), n - ds.length⟩ := by
  have hpoint : ∀ c ∈ ('.' :: (ds ++ rest)).head?, c.isDigit = false := fun c hc => by
    rw [← Option.some.inj hc]
    rfl
  obtain ⟨htake, hdrop⟩ := takeWhile_isDigit hwhole hpoint
  obtain ⟨htake', hdrop'⟩ := takeWhile_isDigit hds hrest
  simp only [parse?, fraction, htake, hdrop, htake', hdrop', List.isEmpty_eq_false_iff.mpr hne,
    Bool.false_and, Bool.false_eq_true, if_false, hn, Option.map_some]

/-- The exponent of a layout reads as what it was written for. -/
theorem exponent?_text (i : Int) (plus : Bool) :
    exponent? ('e' :: ((if i < 0 then ['-'] else if plus then ['+'] else []) ++
      Digits.text i.natAbs)) = some i := by
  by_cases hi : i < 0
  · have hneg : -Int.ofNat i.natAbs = i := by
      rw [Int.ofNat_eq_natCast]
      omega
    simp only [if_pos hi, List.singleton_append, exponent?, Digits.value?_text, Option.map_some,
      true_or, if_true, hneg]
  · have hpos : Int.ofNat i.natAbs = i := by
      rw [Int.ofNat_eq_natCast]
      omega
    cases plus with
    | true =>
        simp only [if_neg hi, if_true, List.singleton_append, exponent?, Digits.value?_text,
          Option.map_some, true_or, hpos]
    | false =>
        simp only [if_neg hi, if_true, Bool.false_eq_true, if_false, List.nil_append, exponent?,
          true_or]
        split
        · rename_i ds heq
          have hminus := Digits.isDigit_of_mem_text (heq ▸ List.mem_cons_self)
          exact absurd hminus (by decide)
        · rename_i ds heq
          have hplus := Digits.isDigit_of_mem_text (heq ▸ List.mem_cons_self)
          exact absurd hplus (by decide)
        · rw [Digits.value?_text, Option.map_some, hpos]

end Decimal

namespace FloatLayout

/-- A decimal without an exponent reads as a decimal of its value. -/
theorem exists_parse?_positionalText (layout : FloatLayout) (d : Decimal) :
    ∃ e, Decimal.parse? (layout.positionalText d) = some e ∧
      e.value = d.value := by
  have hdigits : ∀ c ∈ Digits.text d.coefficient, c.isDigit = true := fun _ =>
    Digits.isDigit_of_mem_text
  have hne := Digits.text_ne_nil d.coefficient
  have hzeros : ∀ k, ∀ c ∈ List.replicate k '0', c.isDigit = true := fun k c hc => by
    rw [List.eq_of_mem_replicate hc]
    rfl
  have hzero : ∀ c ∈ ['0'], c.isDigit = true := hzeros 1
  have hnil : ∀ c ∈ ([] : List Char).head?, c.isDigit = false := fun c hc => nomatch hc
  simp only [positionalText]
  by_cases he : 0 ≤ d.exponent
  · -- Zeros take the place of the exponent.
    rw [if_pos he]
    have hwhole : ∀ c ∈ Digits.text d.coefficient ++ List.replicate d.exponent.toNat '0',
        c.isDigit = true := fun c hc => (List.mem_append.mp hc).elim (hdigits c) (hzeros _ c)
    have hne' : Digits.text d.coefficient ++ List.replicate d.exponent.toNat '0' ≠ [] :=
      List.append_ne_nil_of_left_ne_nil hne _
    cases layout.pointZero with
    | false =>
        have hread := Decimal.parse?_whole hwhole hne' hnil (by simp) rfl
        rw [if_neg Bool.false_ne_true, List.append_nil]
        rw [List.append_nil] at hread
        refine ⟨_, hread, ?_⟩
        rw [Digits.decimalValue_append, Digits.decimalValue_text, Digits.decimalValue_zeros,
          List.length_replicate, Decimal.value, Decimal.value, zpow_ten_of_nonneg he]
        push_cast
        ring
    | true =>
        have hread := Decimal.parse?_point hwhole hne' hzero hnil rfl
        rw [if_pos rfl]
        refine ⟨_, hread, ?_⟩
        have hvalue : Digits.decimalValue ['0'] = 0 := rfl
        rw [Digits.decimalValue_append, Digits.decimalValue_append, Digits.decimalValue_text,
          Digits.decimalValue_zeros, hvalue, List.length_replicate, Decimal.value, Decimal.value,
          zpow_ten_of_nonneg he, List.length_singleton, Nat.cast_one, zero_sub, zpow_neg_one]
        push_cast
        ring
  · rw [if_neg he]
    by_cases hplaces : (-d.exponent).toNat < (Digits.text d.coefficient).length
    · -- The point stands between the digits.
      have htake : ∀ c ∈ (Digits.text d.coefficient).take
          ((Digits.text d.coefficient).length - (-d.exponent).toNat), c.isDigit = true :=
        fun c hc => hdigits c (List.mem_of_mem_take hc)
      have hdrop : ∀ c ∈ (Digits.text d.coefficient).drop
          ((Digits.text d.coefficient).length - (-d.exponent).toNat), c.isDigit = true :=
        fun c hc => hdigits c (List.mem_of_mem_drop hc)
      have hne' : (Digits.text d.coefficient).take
          ((Digits.text d.coefficient).length - (-d.exponent).toNat) ≠ [] := by
        rw [← List.length_pos_iff, List.length_take]
        omega
      have hread := Decimal.parse?_point htake hne' hdrop hnil rfl
      rw [List.append_nil] at hread
      rw [if_pos hplaces]
      refine ⟨_, hread, ?_⟩
      have hexponent : (0 : Int) - ((Digits.text d.coefficient).drop
          ((Digits.text d.coefficient).length - (-d.exponent).toNat)).length = d.exponent := by
        rw [List.length_drop]
        omega
      rw [List.take_append_drop, Digits.decimalValue_text, hexponent]
    · -- Zeros stand between the point and the digits.
      have hds : ∀ c ∈ List.replicate ((-d.exponent).toNat - (Digits.text d.coefficient).length) '0' ++
          Digits.text d.coefficient, c.isDigit = true :=
        fun c hc => (List.mem_append.mp hc).elim (hzeros _ c) (hdigits c)
      have hread := Decimal.parse?_point hzero (List.cons_ne_nil _ _) hds hnil rfl
      rw [List.append_nil] at hread
      rw [if_neg hplaces]
      refine ⟨_, hread, ?_⟩
      have hvalue : Digits.decimalValue ['0'] = 0 := rfl
      have hexponent : (0 : Int) - (List.replicate ((-d.exponent).toNat -
          (Digits.text d.coefficient).length) '0' ++ Digits.text d.coefficient).length
            = d.exponent := by
        rw [List.length_append, List.length_replicate]
        omega
      rw [Digits.decimalValue_append, Digits.decimalValue_append, Digits.decimalValue_zeros, hvalue,
        Digits.decimalValue_text, hexponent, Nat.zero_mul, Nat.zero_mul, Nat.zero_add, Nat.zero_add]

/-- A decimal with an exponent reads as it was. -/
theorem parse?_scientificText (layout : FloatLayout) (d : Decimal) :
    Decimal.parse? (layout.scientificText d) = some d := by
  have hdigits : ∀ c ∈ Digits.text d.coefficient, c.isDigit = true := fun _ =>
    Digits.isDigit_of_mem_text
  have hvalue := Digits.decimalValue_text d.coefficient
  simp only [scientificText]
  cases hds : Digits.text d.coefficient with
  | nil => exact absurd hds (Digits.text_ne_nil _)
  | cons first rest =>
      rw [hds] at hdigits hvalue
      have hfirst : ∀ c ∈ [first], c.isDigit = true := fun c hc => by
        rw [List.mem_singleton.mp hc]
        exact hdigits first List.mem_cons_self
      have hexp := Decimal.exponent?_text (d.exponent + (first :: rest).length - 1)
        layout.exponentPlus
      have hmark : ∀ tail, ∀ c ∈ ('e' :: tail : List Char).head?, c.isDigit = false :=
        fun tail c hc => by
          rw [← Option.some.inj hc]
          rfl
      rw [List.take_succ_cons, List.take_zero, List.drop_succ_cons, List.drop_zero]
      -- A point stands behind the first digit only if there are more digits.
      by_cases hone : rest = []
      · rw [hone] at hexp hvalue ⊢
        have hread := Decimal.parse?_whole hfirst (List.cons_ne_nil _ _) (hmark _) (by simp) hexp
        have hexponent : d.exponent + ([first].length : Int) - 1 = d.exponent := by
          rw [List.length_singleton]
          omega
        rw [if_neg (by simp), List.append_nil, hread, hvalue, hexponent]
      · have hpos := List.length_pos_iff.mpr hone
        have hread := Decimal.parse?_point hfirst (List.cons_ne_nil _ _)
          (fun c hc => hdigits c (List.mem_cons_of_mem _ hc)) (hmark _) hexp
        have hexponent : d.exponent + ((first :: rest).length : Int) - 1 - rest.length
            = d.exponent := by
          rw [List.length_cons]
          omega
        rw [List.singleton_append, List.singleton_append, hvalue, hexponent] at hread
        rw [if_pos (by rw [List.length_cons]; omega), List.singleton_append, List.cons_append,
          List.cons_append]
        exact hread

/-- The text of a magnitude reads as it. -/
theorem exists_parse? (layout : FloatLayout) (a : Magnitude) :
    ∃ d, Decimal.parse? (layout.magnitudeText a) = some d ∧ d.toMagnitude? = some a := by
  have hpositional : ∃ d, Decimal.parse? (layout.positionalText (a.shortest layout.tie)) = some d ∧
      d.toMagnitude? = some a := by
    obtain ⟨d, hread, hvalue⟩ := layout.exists_parse?_positionalText (a.shortest layout.tie)
    exact ⟨d, hread, Magnitude.toMagnitude?_of_value hvalue⟩
  simp only [magnitudeText]
  split
  · exact hpositional
  · split
    · exact hpositional
    · exact ⟨_, layout.parse?_scientificText _, Magnitude.toMagnitude?_of_value rfl⟩

/-- A magnitude begins with a digit. -/
theorem exists_magnitudeText_eq (layout : FloatLayout) (a : Magnitude) :
    ∃ c cs, layout.magnitudeText a = c :: cs ∧ c.isDigit = true := by
  have hdigit : ∀ n, ∃ c cs, Digits.text n = c :: cs ∧ c.isDigit = true := by
    intro n
    cases hds : Digits.text n with
    | nil => exact absurd hds (Digits.text_ne_nil n)
    | cons c cs => exact ⟨c, cs, rfl, Digits.isDigit_of_mem_text (hds ▸ List.mem_cons_self)⟩
  have hpositional : ∀ d, ∃ c cs, layout.positionalText d = c :: cs ∧ c.isDigit = true := by
    intro d
    obtain ⟨c, cs, hds, hc⟩ := hdigit d.coefficient
    simp only [positionalText, hds]
    split
    · exact ⟨c, _, rfl, hc⟩
    · split
      · rename_i hplaces
        obtain ⟨k, hk⟩ : ∃ k, (c :: cs).length - (-d.exponent).toNat = k + 1 :=
          ⟨(c :: cs).length - (-d.exponent).toNat - 1, by omega⟩
        exact ⟨c, _, by rw [hk, List.take_succ_cons, List.cons_append], hc⟩
      · exact ⟨'0', _, rfl, rfl⟩
  have hscientific : ∀ d, ∃ c cs, layout.scientificText d = c :: cs ∧ c.isDigit = true := by
    intro d
    obtain ⟨c, cs, hds, hc⟩ := hdigit d.coefficient
    simp only [scientificText, hds]
    exact ⟨c, _, rfl, hc⟩
  simp only [magnitudeText]
  split
  · exact hpositional _
  · split
    · exact hpositional _
    · exact hscientific _

/-- In a layout in which whole numbers keep their point, digits of a magnitude are
    followed by a point or an exponent. -/
theorem exists_magnitudeText_mark {layout : FloatLayout} (h : layout.pointZero = true)
    (a : Magnitude) : ∃ whole mark rest, layout.magnitudeText a = whole ++ mark :: rest ∧
      whole ≠ [] ∧ (∀ c ∈ whole, c.isDigit = true) ∧ (mark = '.' ∨ mark = 'e') := by
  have hdigits : ∀ n, ∀ c ∈ Digits.text n, c.isDigit = true := fun _ _ => Digits.isDigit_of_mem_text
  -- Both ways to write a number are looked through. A whole one has a point by `h`.
  have hpositional : ∀ d, ∃ whole mark rest, layout.positionalText d = whole ++ mark :: rest ∧
      whole ≠ [] ∧ (∀ c ∈ whole, c.isDigit = true) ∧ (mark = '.' ∨ mark = 'e') := by
    intro d
    have hne := Digits.text_ne_nil d.coefficient
    simp only [positionalText, h, if_true]
    split
    · refine ⟨_, '.', ['0'], rfl, List.append_ne_nil_of_left_ne_nil hne _, fun c hc => ?_, .inl rfl⟩
      rcases List.mem_append.mp hc with hc | hc
      · exact hdigits _ c hc
      · rw [List.eq_of_mem_replicate hc]
        rfl
    · split
      · refine ⟨_, '.', _, rfl, ?_, fun c hc => hdigits _ c (List.mem_of_mem_take hc), .inl rfl⟩
        rw [← List.length_pos_iff, List.length_take]
        omega
      · exact ⟨['0'], '.', _, rfl, List.cons_ne_nil _ _, fun c hc => by
          rw [List.mem_singleton.mp hc]
          rfl, .inl rfl⟩
  have hscientific : ∀ d, ∃ whole mark rest, layout.scientificText d = whole ++ mark :: rest ∧
      whole ≠ [] ∧ (∀ c ∈ whole, c.isDigit = true) ∧ (mark = '.' ∨ mark = 'e') := by
    intro d
    have hne : (Digits.text d.coefficient).take 1 ≠ [] := by
      have hpos := List.length_pos_iff.mpr (Digits.text_ne_nil d.coefficient)
      rw [← List.length_pos_iff, List.length_take]
      omega
    have htake : ∀ c ∈ (Digits.text d.coefficient).take 1, c.isDigit = true := fun c hc =>
      hdigits _ c (List.mem_of_mem_take hc)
    simp only [scientificText]
    split
    · exact ⟨_, '.', _, by rw [List.append_assoc]; rfl, hne, htake, .inl rfl⟩
    · exact ⟨_, 'e', _, by rw [List.append_nil], hne, htake, .inr rfl⟩
  simp only [magnitudeText]
  split
  · exact hpositional _
  · split
    · exact hpositional _
    · exact hscientific _

theorem magnitudeText_injective {layout : FloatLayout} {a b : Magnitude}
    (h : layout.magnitudeText a = layout.magnitudeText b) : a = b := by
  obtain ⟨d, hread, ha⟩ := layout.exists_parse? a
  obtain ⟨e, hread', hb⟩ := layout.exists_parse? b
  rw [h, hread', Option.some.injEq] at hread
  rw [hread, ha, Option.some.injEq] at hb
  exact hb

/-- Different numbers have different texts. -/
theorem signedText_injective {layout : FloatLayout} {m n : Bool} {a b : Magnitude}
    (h : layout.signedText m a = layout.signedText n b) : m = n ∧ a = b := by
  have hsign : ∀ a b : Magnitude, '-' :: layout.magnitudeText a ≠ layout.magnitudeText b := by
    intro a b heq
    obtain ⟨c, cs, hcs, hc⟩ := layout.exists_magnitudeText_eq b
    rw [hcs] at heq
    rw [← (List.cons.inj heq).1] at hc
    exact absurd hc (by decide)
  rw [signedText, signedText, String.ofList_inj] at h
  cases m <;> cases n
  · exact ⟨rfl, magnitudeText_injective h⟩
  · exact absurd h.symm (hsign b a)
  · exact absurd h (hsign a b)
  · exact ⟨rfl, magnitudeText_injective (List.cons.inj h).2⟩

/-- The names of the values that are no finite numbers stand for no others. -/
theorem signedText_ne (layout : FloatLayout) (negative : Bool) (a : Magnitude) :
    ∀ name ∈ ["inf", "-inf", "NaN"], layout.signedText negative a ≠ name := by
  intro name hname heq
  obtain ⟨c, cs, hcs, hc⟩ := layout.exists_magnitudeText_eq a
  have hlist := congrArg String.toList heq
  rw [signedText, String.toList_ofList, hcs] at hlist
  simp only [List.mem_cons, List.not_mem_nil, or_false] at hname
  cases negative with
  | false =>
      rcases hname with rfl | rfl | rfl <;> rw [(List.cons.inj hlist).1] at hc <;>
        exact absurd hc (by decide)
  | true =>
      rcases hname with rfl | rfl | rfl
      · exact absurd (List.cons.inj hlist).1 (by decide)
      · rw [(List.cons.inj (List.cons.inj hlist).2).1] at hc
        exact absurd hc (by decide)
      · exact absurd (List.cons.inj hlist).1 (by decide)

/-- Different numbers have different texts, whether they are finite or not. -/
theorem text_injective {layout : FloatLayout} {x y : Binary64} (h : layout.text x = layout.text y) :
    x = y := by
  have hname : ∀ x : Binary64, (∃ negative a, x = .finite negative a) ∨
      layout.text x ∈ ["inf", "-inf", "NaN"] := by
    intro x
    cases x with
    | finite negative a => exact .inl ⟨negative, a, rfl⟩
    | infinite negative => cases negative <;> exact .inr (by simp [text])
    | nan => exact .inr (by simp [text])
  -- Finite numbers are told apart by their digits, and from the others because these are names.
  rcases hname x with ⟨negative, a, rfl⟩ | hx
  · rcases hname y with ⟨negative', b, rfl⟩ | hy
    · obtain ⟨rfl, rfl⟩ := signedText_injective h
      rfl
    · exact absurd h (layout.signedText_ne negative a _ hy)
  · rcases hname y with ⟨negative', b, rfl⟩ | hy
    · exact absurd h.symm (layout.signedText_ne negative' b _ hx)
    · cases x with
      | finite negative a => exact absurd h (layout.signedText_ne negative a _ hy)
      | infinite negative =>
          cases y with
          | finite negative' b => exact absurd h.symm (layout.signedText_ne negative' b _ hx)
          | infinite negative' =>
              cases negative <;> cases negative'
              · rfl
              · exact absurd h (by simp only [text]; decide)
              · exact absurd h (by simp only [text]; decide)
              · rfl
          | nan => cases negative <;> exact absurd h (by simp only [text]; decide)
      | nan =>
          cases y with
          | finite negative' b => exact absurd h.symm (layout.signedText_ne negative' b _ hx)
          | infinite negative' =>
              cases negative' <;> exact absurd h (by simp only [text]; decide)
          | nan => rfl

end FloatLayout

end SimStudio
