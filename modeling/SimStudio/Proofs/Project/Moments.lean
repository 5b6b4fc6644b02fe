import SimStudio.Proofs.Number.Digits
import SimStudio.Timestamp

/-!
# Moments Read Back

A moment is read from the text as which it is written. Each part of the text
ends where its width is reached or where a mark follows, so that each reader
stops at the place where the writer of its part did.

## Theorems

* `Timestamp.Grammar.number?_digits`: A number is read up to its end.
* `Timestamp.Grammar.year?_yearText`: So is a year.
* `Timestamp.Grammar.fraction?_fractionText`: So is a fraction.
* `Timestamp.read?_text`: A moment is read back.
-/

namespace SimStudio

namespace Digits

theorem foldl_eq_of_readOn {cs : List Char} {k n : Nat} (h : readOn 10 k cs = some n) :
    cs.foldl (fun n c => n * 10 + (digit? c).getD 0) k = n := by
  induction cs generalizing k with
  | nil => exact Option.some.inj h
  | cons c cs ih =>
      rw [readOn] at h
      split at h
      · rename_i d hd
        by_cases hlt : d < 10
        · rw [if_pos hlt] at h
          rw [List.foldl_cons, hd, Option.getD_some]
          exact ih h
        · rw [if_neg hlt] at h
          cases h
      · cases h

theorem decimalValue_eq {cs : List Char} {n : Nat} (h : value? 10 cs = some n) :
    decimalValue cs = n := by
  rw [value?] at h
  split at h
  · cases h
  · exact foldl_eq_of_readOn h

theorem isDigit_of_mem_padded {width n : Nat} {c : Char} (h : c ∈ padded 10 width false n) :
    c.isDigit = true := by
  simp only [padded, Bool.false_eq_true, if_false, List.mem_append, List.mem_replicate] at h
  rcases h with ⟨-, rfl⟩ | h
  · decide
  · exact Nat.isDigit_of_mem_toDigits (by omega) (by omega) h

end Digits

namespace Timestamp

namespace Grammar

theorem isBlank_of_isDigit {c : Char} (h : c.isDigit = true) : Text.isBlank c = false := by
  have hrange : 48 ≤ c.toNat ∧ c.toNat ≤ 57 := Char.isDigit_iff_toNat.mp h
  simp only [Text.isBlank, Bool.or_eq_false_iff, Bool.and_eq_false_iff, decide_eq_false_iff_not,
    beq_eq_false_iff_ne]
  omega

/-- A run of digits is read up to its end: where the width is reached, or where
    something else follows. -/
theorem number?_digits {width n : Nat} {ds rest : List Char} (hvalue : Digits.value? 10 ds = some n)
    (hds : ∀ c ∈ ds, c.isDigit = true) (hwidth : ds.length ≤ width)
    (hend : ds.length = width ∨ ∀ c ∈ rest.head?, c.isDigit = false) :
    number? width (ds ++ rest) = some (n, rest) := by
  obtain ⟨k, rfl⟩ := Nat.exists_eq_add_of_le hwidth
  have hrest : (rest.take k).takeWhile Char.isDigit = [] := by
    rcases hend with hlength | hstop
    · obtain rfl : k = 0 := by omega
      rfl
    · cases rest with
      | nil => simp
      | cons c rest =>
          cases k with
          | zero => rfl
          | succ k => simp [hstop c rfl]
  have htake : ((ds ++ rest).take (ds.length + k)).takeWhile Char.isDigit = ds := by
    rw [List.take_length_add_append, List.takeWhile_append_of_pos hds, hrest, List.append_nil]
  have hne : ds.isEmpty = false := by
    cases ds with
    | nil => cases hvalue
    | cons c ds => rfl
  simp only [number?, htake, hne, Bool.false_eq_true, if_false, Digits.decimalValue_eq hvalue,
    List.drop_left]

theorem skipBlanks_digits {ds rest : List Char} (hne : ds ≠ [])
    (hds : ∀ c ∈ ds, c.isDigit = true) : skipBlanks (ds ++ rest) = ds ++ rest := by
  cases ds with
  | nil => exact absurd rfl hne
  | cons c ds =>
      have hblank := isBlank_of_isDigit (hds c List.mem_cons_self)
      rw [skipBlanks, List.cons_append, List.dropWhile_cons_of_neg (by simp [hblank])]

/-- Two digits are read behind no blanks. -/
theorem paddedNumber?_two {n : Nat} (h : n < 100) (rest : List Char) :
    paddedNumber? 2 (Digits.padded 10 2 false n ++ rest) = some (n, rest) := by
  have hlength := Digits.length_padded 10 2 false n (by omega) (by omega) h
  rw [paddedNumber?, skipBlanks_digits (Digits.padded_ne_nil 10 2 false n) fun _ =>
    Digits.isDigit_of_mem_padded]
  exact number?_digits (Digits.value?_padded 10 2 false n (by omega) (by omega))
    (fun _ => Digits.isDigit_of_mem_padded) (by omega) (.inl hlength)

theorem year?_digits {n : Nat} {ds rest : List Char} (hne : ds ≠ [])
    (hds : ∀ c ∈ ds, c.isDigit = true) (hnumber : number? 4 (ds ++ rest) = some (n, rest)) :
    year? (ds ++ rest) = some ((n : Int), rest) := by
  cases ds with
  | nil => exact absurd rfl hne
  | cons c ds =>
      have hc := hds c List.mem_cons_self
      rw [year?, skipBlanks_digits hne hds, List.cons_append]
      split
      · rename_i heq
        rw [(List.cons.inj heq).1] at hc
        exact absurd hc (by decide)
      · rename_i heq
        rw [(List.cons.inj heq).1] at hc
        exact absurd hc (by decide)
      · rw [← List.cons_append, hnumber, Option.map_some]

/-- A year is read up to the mark behind it. -/
theorem year?_yearText (year : Int) (rest : List Char) :
    year? (Date.yearText year ++ '-' :: rest) = some (year, '-' :: rest) := by
  have hstop : ∀ c ∈ ('-' :: rest).head?, c.isDigit = false := by
    rintro c ⟨⟩
    decide
  have hvalue : ∀ n, Digits.value? 10 (Digits.padded 10 4 false n) = some n := fun n =>
    Digits.value?_padded 10 4 false n (by omega) (by omega)
  rw [Date.yearText]
  by_cases h : 0 ≤ year ∧ year ≤ 9999
  · have hlength := Digits.length_padded 10 4 false year.toNat (by omega) (by omega) (by omega)
    rw [if_pos h, year?_digits (Digits.padded_ne_nil 10 4 false _) (fun _ =>
      Digits.isDigit_of_mem_padded) (number?_digits (hvalue _) (fun _ =>
        Digits.isDigit_of_mem_padded) (by omega) (.inr hstop)), Int.toNat_of_nonneg h.1]
  · have hnumber : number? (Digits.padded 10 4 false year.natAbs ++ '-' :: rest).length
        (Digits.padded 10 4 false year.natAbs ++ '-' :: rest) = some (year.natAbs, '-' :: rest) :=
      number?_digits (hvalue _) (fun _ => Digits.isDigit_of_mem_padded)
        (by rw [List.length_append]; omega) (.inr hstop)
    have hminus : ∀ cs, year? ('-' :: cs) =
        (number? cs.length cs).map fun r => (-(r.1 : Int), r.2) := fun _ => rfl
    have hplus : ∀ cs, year? ('+' :: cs) =
        (number? cs.length cs).map fun r => ((r.1 : Int), r.2) := fun _ => rfl
    rw [if_neg h, List.cons_append]
    by_cases hneg : year < 0
    · have hyear : -(year.natAbs : Int) = year := by omega
      rw [if_pos hneg, hminus, hnumber, Option.map_some, hyear]
    · have hyear : (year.natAbs : Int) = year := by omega
      rw [if_neg hneg, hplus, hnumber, Option.map_some, hyear]

theorem fraction?_digits {width n : Nat} (hwidth : 0 < width ∧ width ≤ 9) (hn : n < 10 ^ width)
    (rest : List Char) :
    fraction? ('.' :: (Digits.padded 10 width false n ++ 'Z' :: rest)) =
      some (n * 10 ^ (9 - width), 'Z' :: rest) := by
  have hlength := Digits.length_padded 10 width false n (by omega) hwidth.1 hn
  have hnumber : number? 9 (Digits.padded 10 width false n ++ 'Z' :: rest) =
      some (n, 'Z' :: rest) := by
    refine number?_digits (Digits.value?_padded 10 width false n (by omega) (by omega))
      (fun _ => Digits.isDigit_of_mem_padded) (by omega) (.inr ?_)
    rintro c ⟨⟩
    decide
  simp [fraction?, hnumber, hlength]

/-- A fraction is read up to the zone behind it. -/
theorem fraction?_fractionText {nano : Nat} (h : nano < 1000000000) (rest : List Char) :
    fraction? (fractionText nano ++ 'Z' :: rest) = some (nano, 'Z' :: rest) := by
  rw [fractionText]
  split
  · rename_i hzero
    rw [hzero]
    rfl
  · split
    · rw [List.cons_append, fraction?_digits (by omega) (by omega)]
      simp
      omega
    · split
      · rw [List.cons_append, fraction?_digits (by omega) (by omega)]
        simp
        omega
      · rw [List.cons_append, fraction?_digits (by omega) (by omega)]
        simp

end Grammar

theorem ofZone?_zero (t : Timestamp) : ofZone? t.date t.second t.nano 0 = some t := by
  have hsecond := t.second_lt
  rw [ofZone?, Int.sub_zero, if_neg (by omega), if_neg (by omega), Int.toNat_natCast, of?,
    dif_pos ⟨t.second_lt, t.nano_lt⟩]

theorem day_lt (date : Date) : date.day < 100 := by
  have hrange := date.day_range.2
  unfold daysOfMonth at hrange
  repeat' split at hrange
  all_goals omega

/-- A reader goes on with what the first part has given. -/
theorem bind_of_eq_some {α β : Type} {found : Option α} {a : α} {next : α → Option β}
    {result : Option β} (h : found = some a) (hnext : next a = result) :
    (found >>= next) = result := by
  rw [h]
  exact hnext

/-- A day and a time of it are read part by part. -/
theorem read?_parts (date : Date) {hour minute second nano : Nat} (hhour : hour < 24)
    (hminute : minute < 60) (hsecond : second ≤ 60) (hnano : nano < 1000000000) :
    read? (String.ofList (date.text ++ 'T' :: (Digits.padded 10 2 false hour ++
      ':' :: (Digits.padded 10 2 false minute ++ ':' :: (Digits.padded 10 2 false second ++
        (fractionText nano ++ ['Z'])))))) =
      if second = 60 then ofZone? date (hour * 3600 + minute * 60 + 59) (nano + 1000000000) 0
      else ofZone? date (hour * 3600 + minute * 60 + second) nano 0 := by
  have hmonth := date.month_range
  have hdate : Date.of? date.year date.month date.day = some date :=
    dif_pos ⟨date.year_range, date.month_range, date.day_range⟩
  have hdash : ∀ cs, Grammar.mark? '-' ('-' :: cs) = some cs := fun _ => rfl
  have hcolon : ∀ cs, Grammar.mark? ':' (':' :: cs) = some cs := fun _ => rfl
  have hzone : Grammar.zone? (Grammar.skipBlanks ['Z']) = some (0, []) := by decide
  have htwo : ∀ {n}, n < 100 → ∀ rest, Grammar.paddedNumber? 2 (Digits.padded 10 2 false n ++ rest) =
      some (n, rest) := fun hn rest => Grammar.paddedNumber?_two hn rest
  rw [read?, String.toList_ofList, Date.text]
  simp only [List.append_assoc, List.cons_append]
  refine bind_of_eq_some (Grammar.year?_yearText ..) ?_
  refine bind_of_eq_some (hdash _) (bind_of_eq_some (htwo (by omega) _) ?_)
  refine bind_of_eq_some (hdash _) (bind_of_eq_some (htwo (day_lt date) _) ?_)
  refine bind_of_eq_some hdate ((if_neg (by simp)).trans ?_)
  refine bind_of_eq_some (htwo (by omega) _) ?_
  refine bind_of_eq_some (hcolon _) (bind_of_eq_some (htwo (by omega) _) ?_)
  refine bind_of_eq_some (hcolon _) (bind_of_eq_some (htwo (by omega) _) ?_)
  refine bind_of_eq_some (Grammar.fraction?_fractionText hnano _) (bind_of_eq_some hzone ?_)
  exact if_pos ⟨hhour, hminute, hsecond, rfl⟩

/-- A moment is read back. -/
theorem read?_text (t : Timestamp) : read? t.text = some t := by
  have hsecond := t.second_lt
  have hnano := t.nano_lt
  rw [← ofZone?_zero t, text]
  by_cases hleap : t.nano < 1000000000
  · have htime : t.second / 3600 * 3600 + t.second / 60 % 60 * 60 + t.second % 60 = t.second := by
      omega
    simp only [if_pos hleap, Nat.add_zero, Nat.mod_eq_of_lt hleap]
    rw [read?_parts t.date (by omega) (by omega) (by omega) hleap, if_neg (by omega), htime]
  · have hlast : t.second % 60 = 59 := by omega
    have htime : t.second / 3600 * 3600 + t.second / 60 % 60 * 60 + 59 = t.second := by omega
    simp only [if_neg hleap, hlast]
    rw [read?_parts t.date (by omega) (by omega) (by omega) (Nat.mod_lt _ (by omega)), if_pos rfl,
      htime, show t.nano % 1000000000 + 1000000000 = t.nano by omega]

end Timestamp

end SimStudio
