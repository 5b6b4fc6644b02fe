import SimStudio.Proofs.Number.Characters
import SimStudio.Proofs.Number.FloatText
import SimStudio.Proofs.Text.Quoting
import SimStudio.Proofs.Text.Runs

/-!
# Compact JSON Text Determines the Value

Different values have different compact texts, and a text ends where a comma or
a closing bracket says so.

The first character tells strings, arrays and objects from one another and from
the rest, which are words: runs of letters, digits, signs and points. A word
ends where another character follows, and different words stand for different
values. Integers and floats are told apart by the point or the exponent that
every float has.

## Main definitions

* `EndsWord`: No more of a word follows.
* `Json.isWord`: A value that is written as a word.

## Theorems

* `Json.induction`: Induction over values.
* `JsonNumber.compact_injective`: Different numbers have different texts.
* `Json.word_injective`: Different words stand for different values.
* `Json.compact_unique`: A text determines the value, and where it ends.
* `Json.compact_injective`: Different values have different texts.
-/

namespace SimStudio

/-- No more of a word follows. -/
def EndsWord (rest : List Char) : Prop := ∀ c ∈ rest.head?, isNumberMark c = false

theorem EndsWord.of_mark {mark closing : Char} {rest : List Char}
    (hmark : isNumberMark mark = false) (hclosing : isNumberMark closing = false)
    (h : rest.head? = some mark ∨ rest.head? = some closing) : EndsWord rest := by
  intro c hc
  rcases h with h | h
  · rw [h] at hc
    exact Option.some.inj hc ▸ hmark
  · rw [h] at hc
    exact Option.some.inj hc ▸ hclosing

theorem intText_injective {i j : Int} (h : toString i = toString j) : i = j := by
  have hlist := congrArg String.toList h
  have hsign : ∀ m n : Nat, '-' :: Digits.text m ≠ Digits.text n := fun m n heq =>
    absurd (Digits.isDigit_of_mem_text (heq ▸ List.mem_cons_self)) (by decide)
  rw [intText_eq, intText_eq] at hlist
  by_cases hi : i < 0 <;> by_cases hj : j < 0
  · rw [if_pos hi, if_pos hj] at hlist
    have habs := Digits.text_injective (List.cons.inj hlist).2
    omega
  · rw [if_pos hi, if_neg hj] at hlist
    exact absurd hlist (hsign _ _)
  · rw [if_neg hi, if_pos hj] at hlist
    exact absurd hlist.symm (hsign _ _)
  · rw [if_neg hi, if_neg hj] at hlist
    have habs := Digits.text_injective hlist
    omega

namespace FloatLayout

/-- Where whole numbers keep a point, every float has a point or an exponent. -/
theorem exists_mark_mem_magnitudeText {layout : FloatLayout} (h : layout.pointZero = true)
    (a : Magnitude) : '.' ∈ layout.magnitudeText a ∨ 'e' ∈ layout.magnitudeText a := by
  have hpositional : ∀ d, '.' ∈ layout.positionalText d := by
    intro d
    simp only [positionalText, if_pos h]
    split
    · exact List.mem_append_right _ List.mem_cons_self
    · split
      · exact List.mem_append_right _ List.mem_cons_self
      · exact List.mem_cons_of_mem _ List.mem_cons_self
  have hscientific : ∀ d, 'e' ∈ layout.scientificText d := by
    intro d
    simp only [scientificText]
    exact List.mem_append_right _ List.mem_cons_self
  simp only [magnitudeText]
  split
  · exact .inl (hpositional _)
  · split
    · exact .inl (hpositional _)
    · exact .inr (hscientific _)

end FloatLayout

namespace JsonNumber

theorem intText_ne_floatText (i : Int) (negative : Bool) (a : Magnitude) :
    toString i ≠ layout.signedText negative a := by
  intro h
  have hnot : ∀ c, c = '.' ∨ c = 'e' → c ∉ (toString i).toList := by
    intro c hc hmem
    rw [intText_eq, List.mem_append] at hmem
    rcases hmem with hmem | hmem
    · split at hmem
      · rw [List.mem_singleton.mp hmem] at hc
        exact absurd hc (by decide)
      · exact List.not_mem_nil hmem
    · have hdigit := Digits.isDigit_of_mem_text hmem
      rcases hc with rfl | rfl <;> exact absurd hdigit (by decide)
  rw [h, FloatLayout.signedText, String.toList_ofList] at hnot
  rcases FloatLayout.exists_mark_mem_magnitudeText (show layout.pointZero = true from rfl) a with
    hmem | hmem
  · exact hnot '.' (.inl rfl) (List.mem_append_right _ hmem)
  · exact hnot 'e' (.inr rfl) (List.mem_append_right _ hmem)

/-- Different numbers have different texts. -/
theorem compact_injective {m n : JsonNumber} (h : m.compact = n.compact) : m = n := by
  cases m with
  | int i hi =>
      cases n with
      | int j hj =>
          obtain rfl := intText_injective h
          rfl
      | float negative a => exact absurd h (intText_ne_floatText i negative a)
  | float negative a =>
      cases n with
      | int j hj => exact absurd h.symm (intText_ne_floatText j negative a)
      | float negative' b =>
          obtain ⟨rfl, rfl⟩ := FloatLayout.signedText_injective h
          rfl

/-- A number begins with a digit or a sign. -/
theorem exists_compact_eq (n : JsonNumber) :
    ∃ c cs, n.compact.toList = c :: cs ∧ (c.isDigit = true ∨ c = '-') := by
  have hdigits : ∀ cs : List Char, (∃ c ds, cs = c :: ds ∧ (c.isDigit = true ∨ c = '-')) →
      ∀ negative : Bool, ∃ c ds, (if negative then ['-'] else []) ++ cs = c :: ds ∧
        (c.isDigit = true ∨ c = '-') := by
    intro cs hcs negative
    cases negative with
    | true => exact ⟨'-', cs, rfl, .inr rfl⟩
    | false => exact hcs
  cases n with
  | int i hi =>
      have htext : ∃ c ds, Digits.text i.natAbs = c :: ds ∧ (c.isDigit = true ∨ c = '-') := by
        cases hds : Digits.text i.natAbs with
        | nil => exact absurd hds (Digits.text_ne_nil _)
        | cons c ds => exact ⟨c, ds, rfl,
            .inl (Digits.isDigit_of_mem_text (hds ▸ List.mem_cons_self))⟩
      obtain ⟨c, ds, h, hc⟩ := hdigits _ htext (decide (i < 0))
      refine ⟨c, ds, ?_, hc⟩
      rw [compact, intText_eq, ← h]
      simp only [decide_eq_true_eq]
  | float negative a =>
      obtain ⟨c, ds, h, hc⟩ := layout.exists_magnitudeText_eq a
      obtain ⟨c, ds, h, hc⟩ := hdigits _ ⟨c, ds, h, .inl hc⟩ negative
      refine ⟨c, ds, ?_, hc⟩
      rw [compact, FloatLayout.signedText, String.toList_ofList, h]

end JsonNumber

namespace Json

/-- Whether a value is written as a word. -/
def isWord : Json → Bool
  | null => true
  | bool _ => true
  | number _ => true
  | _ => false

/-- What holds of words and of texts, and of a collection if it holds of all that
    is in it, holds of all values. -/
theorem induction {P : Json → Prop} (word : ∀ v, v.isWord = true → P v)
    (text : ∀ s, P (.text s)) (array : ∀ items, (∀ v ∈ items, P v) → P (.array items))
    (object : ∀ members, (∀ m ∈ members, P m.2) → P (.object members)) (v : Json) : P v := by
  refine @Json.rec P (fun items => ∀ v ∈ items, P v) (fun members => ∀ m ∈ members, P m.2)
    (fun m => P m.2) (word _ rfl) (fun _ => word _ rfl) (fun _ => word _ rfl) text array object
    ?_ ?_ ?_ ?_ (fun _ _ ih => ih) v
  · exact fun _ hv => absurd hv List.not_mem_nil
  · exact fun _ _ hv hrest => List.forall_mem_cons.mpr ⟨hv, hrest⟩
  · exact fun _ hm => absurd hm List.not_mem_nil
  · exact fun _ _ hm hrest => List.forall_mem_cons.mpr ⟨hm, hrest⟩

theorem isNumberMark_of_mem_word {v : Json} (hv : v.isWord = true) {c : Char}
    (h : c ∈ v.compact.toList) : isNumberMark c = true := by
  have hname : ∀ s : String, s.toList.all isNumberMark = true → c ∈ s.toList →
      isNumberMark c = true := fun _ hs hc => List.all_eq_true.mp hs c hc
  cases v with
  | null => exact hname "null" (by decide) (by rwa [compact] at h)
  | bool b =>
      cases b with
      | true => exact hname "true" (by decide) (by rwa [compact] at h)
      | false => exact hname "false" (by decide) (by rwa [compact] at h)
  | number n => exact JsonNumber.isNumberMark_of_mem_compact (by rwa [compact] at h)
  | text s => cases hv
  | array items => cases hv
  | object members => cases hv

/-- Different words stand for different values. -/
theorem word_injective {v w : Json} (hv : v.isWord = true) (hw : w.isWord = true)
    (h : v.compact = w.compact) : v = w := by
  -- No name begins with a digit or a sign.
  have hname : ∀ s ∈ ["null", "true", "false"], ∀ n : JsonNumber, n.compact ≠ s := by
    intro s hs n hn
    obtain ⟨c, cs, hcs, hc⟩ := n.exists_compact_eq
    rw [hn] at hcs
    simp only [List.mem_cons, List.not_mem_nil, or_false] at hs
    rcases hs with rfl | rfl | rfl <;> rw [← (List.cons.inj hcs).1] at hc <;>
      exact absurd hc (by decide)
  cases v with
  | null =>
      cases w with
      | null => rfl
      | bool b => cases b <;> exact absurd h (by simp only [compact]; decide)
      | number n => exact absurd h.symm (by rw [compact, compact]; exact hname _ (by decide) n)
      | _ => cases hw
  | bool b =>
      cases w with
      | null => cases b <;> exact absurd h (by simp only [compact]; decide)
      | bool b' =>
          cases b <;> cases b'
          · rfl
          · exact absurd h (by simp only [compact]; decide)
          · exact absurd h (by simp only [compact]; decide)
          · rfl
      | number n =>
          cases b <;>
            exact absurd h.symm (by rw [compact, compact]; exact hname _ (by decide) n)
      | _ => cases hw
  | number n =>
      cases w with
      | null => exact absurd h (by rw [compact, compact]; exact hname _ (by decide) n)
      | bool b =>
          cases b <;> exact absurd h (by rw [compact, compact]; exact hname _ (by decide) n)
      | number m =>
          rw [compact, compact] at h
          exact congrArg number (JsonNumber.compact_injective h)
      | _ => cases hw
  | text s => cases hv
  | array items => cases hv
  | object members => cases hv

/-- The mark that a value other than a word begins with. -/
def lead? : Json → Option Char
  | text _ => some '"'
  | array _ => some '['
  | object _ => some '\x7b'
  | _ => none

/-- The first character of a text tells which kind of value it stands for. -/
theorem exists_compact_eq (v : Json) :
    ∃ c cs, v.compact.toList = c :: cs ∧ v.lead? = if isNumberMark c then none else some c := by
  have hnames : ∀ s ∈ ["null", "true", "false"],
      ∃ c cs, s.toList = c :: cs ∧ none = if isNumberMark c then none else some c := by
    intro s hs
    simp only [List.mem_cons, List.not_mem_nil, or_false] at hs
    rcases hs with rfl | rfl | rfl
    · exact ⟨'n', _, rfl, rfl⟩
    · exact ⟨'t', _, rfl, rfl⟩
    · exact ⟨'f', _, rfl, rfl⟩
  have hopen : ∀ (opening : String) (c : Char) (xs ys : String), opening.toList = [c] →
      ∃ cs, (opening ++ xs ++ ys).toList = c :: cs := by
    intro opening c xs ys h
    rw [String.toList_append, String.toList_append, h]
    exact ⟨_, rfl⟩
  cases v with
  | null => exact hnames "null" (by decide)
  | bool b =>
      cases b with
      | true => exact hnames "true" (by decide)
      | false => exact hnames "false" (by decide)
  | number n =>
      obtain ⟨c, cs, hcs, hc⟩ := n.exists_compact_eq
      refine ⟨c, cs, hcs, ?_⟩
      rcases hc with hc | rfl
      · rw [if_pos (isNumberMark_of_isDigit hc)]
        rfl
      · rfl
  | text s =>
      rw [compact, quoted, String.toList_ofList]
      exact ⟨'"', _, rfl, rfl⟩
  | array items =>
      rw [compact]
      obtain ⟨cs, hcs⟩ := hopen "[" '[' (",".intercalate (compactItems items)) "]" rfl
      exact ⟨'[', cs, hcs, rfl⟩
  | object members =>
      rw [compact]
      obtain ⟨cs, hcs⟩ := hopen "\x7b" '\x7b' (",".intercalate (compactMembers members)) "\x7d" rfl
      exact ⟨'\x7b', cs, hcs, rfl⟩

theorem lead?_eq {v w : Json} {rest rest' : List Char}
    (h : v.compact.toList ++ rest = w.compact.toList ++ rest') : v.lead? = w.lead? := by
  obtain ⟨c, cs, hcs, hlead⟩ := v.exists_compact_eq
  obtain ⟨c', cs', hcs', hlead'⟩ := w.exists_compact_eq
  rw [hcs, hcs'] at h
  rw [hlead, hlead', (List.cons.inj h).1]

/-- A word determines its value, and where it ends. -/
theorem word_unique {v w : Json} {rest rest' : List Char} (hv : v.isWord = true)
    (hw : w.isWord = true) (hrest : EndsWord rest) (hrest' : EndsWord rest')
    (h : v.compact.toList ++ rest = w.compact.toList ++ rest') : v = w ∧ rest = rest' := by
  obtain ⟨htext, hafter⟩ := Text.run_unique (fun c hc => isNumberMark_of_mem_word hv hc)
    (fun c hc => isNumberMark_of_mem_word hw hc) hrest hrest' h
  exact ⟨word_injective hv hw (String.toList_inj.mp htext), hafter⟩

theorem compactItems_eq (items : List Json) : compactItems items = items.map compact := by
  induction items with
  | nil => rfl
  | cons v rest ih => rw [compactItems, ih, List.map_cons]

theorem compactMembers_eq (members : List (String × Json)) :
    compactMembers members = members.map fun m => quoted m.1 ++ ":" ++ m.2.compact := by
  induction members with
  | nil => rfl
  | cons m rest ih =>
      obtain ⟨key, v⟩ := m
      rw [compactMembers, ih, List.map_cons]

/-- A value whose text determines it, and where it ends. -/
def Unique (v : Json) : Prop :=
  ∀ (w : Json) (rest rest' : List Char), EndsWord rest → EndsWord rest' →
    v.compact.toList ++ rest = w.compact.toList ++ rest' → v = w ∧ rest = rest'

theorem array_unique {items : List Json} (h : ∀ v ∈ items, v.Unique) : (array items).Unique := by
  intro w rest rest' _ _ heq
  cases w with
  | array items' =>
      rw [compact, compact, compactItems_eq, compactItems_eq] at heq
      simp only [String.toList_append, String.toList_intercalate, List.map_map, List.append_assoc]
        at heq
      have hstart : ∀ v : Json, ∃ c cs, (String.toList ∘ compact) v = c :: cs ∧ c ≠ ']' := by
        intro v
        obtain ⟨c, cs, hcs, hlead⟩ := v.exists_compact_eq
        refine ⟨c, cs, hcs, ?_⟩
        rintro rfl
        rw [if_neg (by decide)] at hlead
        cases v <;> simp [lead?] at hlead
      obtain ⟨hitems, hafter⟩ := Text.listed_unique (show ',' ≠ ']' by decide) hstart
        (fun v hv w _ r r' hr hr' => h v hv w r r' (.of_mark rfl rfl hr) (.of_mark rfl rfl hr'))
        (List.append_cancel_left heq)
      exact ⟨by rw [hitems], hafter⟩
  | _ => exact absurd (lead?_eq heq) (by simp [lead?])

theorem object_unique {members : List (String × Json)} (h : ∀ m ∈ members, m.2.Unique) :
    (object members).Unique := by
  intro w rest rest' _ _ heq
  cases w with
  | object members' =>
      rw [compact, compact, compactMembers_eq, compactMembers_eq] at heq
      simp only [String.toList_append, String.toList_intercalate, List.map_map, List.append_assoc]
        at heq
      -- A member begins with a quote and not as the object ends. It is known from its text,
      -- whatever follows: the key ends at its quote, and the value is unique.
      have hstart : ∀ m : String × Json, ∃ c cs,
          (String.toList ∘ fun m : String × Json => quoted m.1 ++ ":" ++ m.2.compact) m = c :: cs ∧
            c ≠ '\x7d' := by
        intro m
        refine ⟨'"', m.1.toList.flatMap escaped ++ (['"'] ++ (":".toList ++ m.2.compact.toList)), ?_,
          by decide⟩
        simp only [Function.comp_apply, quoted, String.toList_append, String.toList_ofList,
          List.cons_append, List.append_assoc]
      have hitem : ∀ m ∈ members, ∀ m' ∈ members', ∀ r r' : List Char,
          (r.head? = some ',' ∨ r.head? = some '\x7d') →
          (r'.head? = some ',' ∨ r'.head? = some '\x7d') →
          (String.toList ∘ fun m : String × Json => quoted m.1 ++ ":" ++ m.2.compact) m ++ r =
            (String.toList ∘ fun m : String × Json => quoted m.1 ++ ":" ++ m.2.compact) m' ++ r' →
          m = m' ∧ r = r' := by
        intro m hm m' _ r r' hr hr' hmember
        simp only [Function.comp_apply, String.toList_append, List.append_assoc] at hmember
        obtain ⟨hkey, hvalue⟩ := quoted_unique hmember
        obtain ⟨hv, hafter⟩ := h m hm m'.2 r r' (.of_mark rfl rfl hr) (.of_mark rfl rfl hr')
          (List.append_cancel_left hvalue)
        exact ⟨Prod.ext hkey hv, hafter⟩
      obtain ⟨hmembers, hafter⟩ := Text.listed_unique (show ',' ≠ '\x7d' by decide) hstart hitem
        (List.append_cancel_left heq)
      exact ⟨by rw [hmembers], hafter⟩
  | _ => exact absurd (lead?_eq heq) (by simp [lead?])

theorem unique_of_isWord {v : Json} (hv : v.isWord = true) : v.Unique := by
  intro w rest rest' hrest hrest' heq
  have hnone : ∀ v : Json, v.isWord = true ↔ v.lead? = none := by
    intro v
    cases v <;> simp [isWord, lead?]
  have hw : w.isWord = true := (hnone w).mpr (lead?_eq heq ▸ (hnone v).mp hv)
  exact word_unique hv hw hrest hrest' heq

theorem unique_text (s : String) : (text s).Unique := by
  intro w rest rest' _ _ heq
  cases w with
  | text s' =>
      rw [compact, compact] at heq
      obtain ⟨rfl, hafter⟩ := quoted_unique heq
      exact ⟨rfl, hafter⟩
  | _ => exact absurd (lead?_eq heq) (by simp [lead?])

/-- A text determines the value, and where it ends. -/
theorem compact_unique (v : Json) : v.Unique :=
  v.induction (fun _ => unique_of_isWord) unique_text (fun _ => array_unique)
    (fun _ => object_unique)

/-- Different values have different texts. -/
theorem compact_injective {v w : Json} (h : v.compact = w.compact) : v = w := by
  have hnil : EndsWord [] := fun c hc => nomatch hc
  exact (compact_unique v w [] [] hnil hnil (by rw [h])).1

end Json

end SimStudio
