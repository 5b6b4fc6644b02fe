import SimStudio.Text.Split

/-!
# Splitting into Runs

The converse of joining. A text that was put together from runs, each followed
by a separator, splits into these runs again, provided that the separator
stands in none of them. This is how the lines of a rendered text are recovered.

## Theorems

* `not_mem_of_mem_split`: No run holds the separator.
* `getLast?_split_concat`: A text that does not end with the separator has a last
  run.
* `split_append_cons`: A run ends at the first separator.
* `split_append`: A separator parts the runs.
* `suffix_of_getLast?_split`: The last run is the end of the text.
* `split_join`: Runs that are joined are recovered.
* `split_ended`: Runs that each end with a separator are recovered.
* `ended_injective`: Such a text determines its runs.
* `mem_intercalate`, `mem_intercalate_of_mem`: Joining brings in nothing but the joint,
  and loses nothing.
* `run_unique`: A run of one class of elements ends where another class begins.
* `listed_unique`: A list between joints and a closing mark determines its items.
-/

namespace SimStudio

namespace Text

variable {separator : Char}

/-- No run holds the separator. -/
theorem not_mem_of_mem_split (cs : List Char) :
    ∀ run ∈ split separator cs, separator ∉ run := by
  induction cs with
  | nil =>
      intro run hrun
      rw [List.mem_singleton.mp hrun]
      exact List.not_mem_nil
  | cons c cs ih =>
      intro run hrun
      rw [split] at hrun
      by_cases hc : c = separator
      · rw [if_pos hc] at hrun
        rcases List.mem_cons.mp hrun with rfl | hrun
        · exact List.not_mem_nil
        · exact ih run hrun
      · rw [if_neg hc] at hrun
        cases hs : split separator cs with
        | nil => exact absurd hs (split_ne_nil separator cs)
        | cons first rest =>
            rw [hs] at hrun ih
            rcases List.mem_cons.mp hrun with rfl | hrun
            · intro hmem
              rcases List.mem_cons.mp hmem with heq | hmem
              · exact hc heq.symm
              · exact ih first List.mem_cons_self hmem
            · exact ih run (List.mem_cons_of_mem _ hrun)

/-- A text that does not end with the separator has a last run. -/
theorem getLast?_split_concat {c : Char} (hc : c ≠ separator) (cs : List Char) :
    (split separator (cs ++ [c])).getLast? ≠ some [] := by
  induction cs with
  | nil =>
      rw [List.nil_append, split, if_neg hc]
      exact fun h => List.cons_ne_nil c [] (Option.some.inj h)
  | cons x cs ih =>
      rw [List.cons_append, split]
      cases hs : split separator (cs ++ [c]) with
      | nil => exact absurd hs (split_ne_nil _ _)
      | cons run rest =>
          rw [hs] at ih
          by_cases hx : x = separator
          · rw [if_pos hx, List.getLast?_cons_cons]
            exact ih
          · rw [if_neg hx]
            cases rest with
            | nil => exact fun h => List.cons_ne_nil x run (Option.some.inj h)
            | cons next rest =>
                rw [List.getLast?_cons_cons] at ih ⊢
                exact ih

theorem split_injective {cs cs' : List Char} (h : split separator cs = split separator cs') :
    cs = cs' := by
  rw [← join_split separator cs, h, join_split]

/-- A run ends at the first separator. -/
theorem split_append_cons {run : List Char} (h : separator ∉ run) (cs : List Char) :
    split separator (run ++ separator :: cs) = run :: split separator cs := by
  induction run with
  | nil => rw [List.nil_append, split, if_pos rfl]
  | cons c run ih =>
      have hc : c ≠ separator := fun heq => h (heq ▸ List.mem_cons_self)
      have hrun : separator ∉ run := fun hmem => h (List.mem_cons_of_mem _ hmem)
      rw [List.cons_append, split, if_neg hc, ih hrun]

/-- A separator parts the runs before it from those behind it. -/
theorem split_append (cs cs' : List Char) : split separator (cs ++ separator :: cs') =
    split separator cs ++ split separator cs' := by
  induction cs with
  | nil =>
      have hhead : split separator (separator :: cs') = [] :: split separator cs' := by
        rw [split, if_pos rfl]
      rw [List.nil_append, hhead]
      rfl
  | cons c cs ih =>
      rw [List.cons_append, split, split, ih]
      by_cases hc : c = separator
      · rw [if_pos hc, if_pos hc, List.cons_append]
      · rw [if_neg hc, if_neg hc]
        cases hs : split separator cs with
        | nil => exact absurd hs (split_ne_nil separator cs)
        | cons run rest => rfl

/-- The last run is the end of the text. -/
theorem suffix_of_getLast?_split {cs run : List Char}
    (h : (split separator cs).getLast? = some run) : run <:+ cs := by
  obtain ⟨before, hbefore⟩ := List.getLast?_eq_some_iff.mp h
  rw [← join_split separator cs, hbefore]
  clear h hbefore
  induction before with
  | nil =>
      have hjoin : join separator ([] ++ [run]) = run := by
        rw [List.nil_append, join, List.intercalate_singleton]
      exact ⟨[], (List.nil_append run).trans hjoin.symm⟩
  | cons first rest ih =>
      obtain ⟨next, later, hlater⟩ : ∃ next later, rest ++ [run] = next :: later :=
        List.exists_cons_of_ne_nil (by simp)
      rw [hlater] at ih
      rw [List.cons_append, hlater, join, List.intercalate_cons_cons]
      exact ih.trans (List.suffix_append _ _)

theorem split_eq_singleton {run : List Char} (h : separator ∉ run) :
    split separator run = [run] := by
  induction run with
  | nil => rfl
  | cons c cs ih =>
      have hc : c ≠ separator := fun heq => h (heq ▸ List.mem_cons_self)
      rw [split, if_neg hc, ih fun hmem => h (List.mem_cons_of_mem _ hmem)]

/-- Runs that are joined are recovered by splitting. -/
theorem split_join {runs : List (List Char)} (hne : runs ≠ [])
    (h : ∀ run ∈ runs, separator ∉ run) : split separator (join separator runs) = runs := by
  induction runs with
  | nil => exact absurd rfl hne
  | cons run rest ih =>
      have hrun := h run List.mem_cons_self
      cases rest with
      | nil => rw [join, List.intercalate_singleton, split_eq_singleton hrun]
      | cons next rest =>
          rw [join, List.intercalate_cons_cons, List.append_assoc, List.singleton_append,
            split_append_cons hrun]
          exact congrArg (run :: ·)
            (ih (List.cons_ne_nil _ _) fun r hr => h r (List.mem_cons_of_mem _ hr))

/-- Runs that each end with a separator are recovered; behind the last
    separator nothing is left. -/
theorem split_ended {runs : List (List Char)} (h : ∀ run ∈ runs, separator ∉ run) :
    split separator (runs.flatMap (· ++ [separator])) = runs ++ [[]] := by
  induction runs with
  | nil => rfl
  | cons run runs ih =>
      have hrest : ∀ r ∈ runs, separator ∉ r := fun r hr => h r (List.mem_cons_of_mem _ hr)
      rw [List.flatMap_cons, List.append_assoc, List.singleton_append,
        split_append_cons (h run List.mem_cons_self), ih hrest, List.cons_append]

/-- A text of runs that each end with a separator ends with one. -/
theorem getLast?_ended {runs : List (List Char)} (h : runs ≠ []) :
    (runs.flatMap (· ++ [separator])).getLast? = some separator := by
  rw [← List.dropLast_concat_getLast h, List.flatMap_append, List.flatMap_singleton,
    ← List.append_assoc, List.getLast?_concat]

/-- A text of runs that each end with a separator determines its runs. -/
theorem ended_injective {runs runs' : List (List Char)} (h : ∀ run ∈ runs, separator ∉ run)
    (h' : ∀ run ∈ runs', separator ∉ run)
    (heq : runs.flatMap (· ++ [separator]) = runs'.flatMap (· ++ [separator])) : runs = runs' := by
  have hsplit := congrArg (split separator) heq
  rw [split_ended h, split_ended h'] at hsplit
  exact List.append_cancel_right hsplit

/-- What stands in joined texts stands in one of them or in what joins them. -/
theorem mem_intercalate {joint : List Char} {texts : List (List Char)} {c : Char}
    (h : c ∈ joint.intercalate texts) : c ∈ joint ∨ ∃ t ∈ texts, c ∈ t := by
  induction texts with
  | nil => exact absurd h List.not_mem_nil
  | cons t rest ih =>
      cases rest with
      | nil =>
          rw [List.intercalate_singleton] at h
          exact .inr ⟨t, List.mem_cons_self, h⟩
      | cons u rest =>
          rw [List.intercalate_cons_cons, List.append_assoc] at h
          rcases List.mem_append.mp h with h | h
          · exact .inr ⟨t, List.mem_cons_self, h⟩
          · rcases List.mem_append.mp h with h | h
            · exact .inl h
            · rcases ih h with h | ⟨v, hv, hc⟩
              · exact .inl h
              · exact .inr ⟨v, List.mem_cons_of_mem _ hv, hc⟩

/-- What stands in one of several joined texts stands in all of them together. -/
theorem mem_intercalate_of_mem {joint : List Char} {texts : List (List Char)} {c : Char}
    {t : List Char} (ht : t ∈ texts) (hc : c ∈ t) : c ∈ joint.intercalate texts := by
  induction texts with
  | nil => exact absurd ht List.not_mem_nil
  | cons u rest ih =>
      cases rest with
      | nil =>
          rw [List.intercalate_singleton, ← List.mem_singleton.mp ht]
          exact hc
      | cons v rest =>
          rw [List.intercalate_cons_cons, List.append_assoc]
          rcases List.mem_cons.mp ht with rfl | ht
          · exact List.mem_append_left _ hc
          · exact List.mem_append_right _ (List.mem_append_right _ (ih ht))

/-- A run of elements of one class ends where an element of another follows. -/
theorem run_unique {α : Type} {p : α → Bool} {xs xs' rest rest' : List α}
    (hxs : ∀ x ∈ xs, p x = true) (hxs' : ∀ x ∈ xs', p x = true)
    (hrest : ∀ x ∈ rest.head?, p x = false) (hrest' : ∀ x ∈ rest'.head?, p x = false)
    (heq : xs ++ rest = xs' ++ rest') : xs = xs' ∧ rest = rest' := by
  induction xs generalizing xs' with
  | nil =>
      cases xs' with
      | nil => exact ⟨rfl, heq⟩
      | cons x xs' =>
          have hfalse := hrest x (by rw [show rest = x :: (xs' ++ rest') from heq]; rfl)
          rw [hxs' x List.mem_cons_self] at hfalse
          exact absurd hfalse (by decide)
  | cons x xs ih =>
      cases xs' with
      | nil =>
          have hfalse := hrest' x (by rw [show rest' = x :: (xs ++ rest) from heq.symm]; rfl)
          rw [hxs x List.mem_cons_self] at hfalse
          exact absurd hfalse (by decide)
      | cons y ys =>
          obtain ⟨hhead, htail⟩ := List.cons.inj heq
          obtain ⟨hrun, hafter⟩ := ih (fun z hz => hxs z (List.mem_cons_of_mem _ hz))
            (fun z hz => hxs' z (List.mem_cons_of_mem _ hz)) htail
          exact ⟨by rw [hhead, hrun], hafter⟩

/-- A list of items between joints, with a closing mark behind it, determines
    the items, provided that each item is determined where a joint or the
    closing mark follows it. -/
theorem listed_unique {α : Type} {text : α → List Char} {mark closing : Char} {space : List Char}
    (hne : mark ≠ closing) {xs ys : List α}
    (hstart : ∀ x, ∃ c cs, text x = c :: cs ∧ c ≠ closing)
    (hitem : ∀ x ∈ xs, ∀ y ∈ ys, ∀ rest rest' : List Char,
      (rest.head? = some mark ∨ rest.head? = some closing) →
      (rest'.head? = some mark ∨ rest'.head? = some closing) →
      text x ++ rest = text y ++ rest' → x = y ∧ rest = rest')
    {rest rest' : List Char}
    (heq : (mark :: space).intercalate (xs.map text) ++ closing :: rest
      = (mark :: space).intercalate (ys.map text) ++ closing :: rest') :
    xs = ys ∧ rest = rest' := by
  -- What follows the first item is a joint with the other items, or the mark.
  have hsplit : ∀ (x : α) (xs : List α) (rest : List Char),
      ∃ after, (mark :: space).intercalate ((x :: xs).map text) ++ closing :: rest
        = text x ++ after ∧
        (xs = [] ∧ after = closing :: rest ∨ xs ≠ [] ∧ after = mark :: (space ++
          ((mark :: space).intercalate (xs.map text) ++ closing :: rest))) := by
    intro x xs rest
    cases xs with
    | nil => exact ⟨closing :: rest, by rw [List.map_singleton, List.intercalate_singleton],
        .inl ⟨rfl, rfl⟩⟩
    | cons y ys =>
        refine ⟨_, ?_, .inr ⟨List.cons_ne_nil _ _, rfl⟩⟩
        rw [List.map_cons, List.map_cons, List.intercalate_cons_cons]
        simp only [List.append_assoc, List.cons_append]
  have hhead : ∀ {xs : List α} {rest after : List Char},
      (xs = [] ∧ after = closing :: rest ∨ xs ≠ [] ∧ after = mark :: (space ++
          ((mark :: space).intercalate (xs.map text) ++ closing :: rest))) →
      after.head? = some mark ∨ after.head? = some closing := by
    rintro xs rest after (⟨-, rfl⟩ | ⟨-, rfl⟩)
    · exact .inr rfl
    · exact .inl rfl
  induction xs generalizing ys with
  | nil =>
      cases ys with
      | nil => exact ⟨rfl, (List.cons.inj heq).2⟩
      | cons y ys =>
          obtain ⟨c, cs, hc, hclosing⟩ := hstart y
          obtain ⟨after, hafter, -⟩ := hsplit y ys rest'
          rw [hafter, hc] at heq
          exact absurd (List.cons.inj heq).1.symm hclosing
  | cons x xs ih =>
      cases ys with
      | nil =>
          obtain ⟨c, cs, hc, hclosing⟩ := hstart x
          obtain ⟨after, hafter, -⟩ := hsplit x xs rest
          rw [hafter, hc] at heq
          exact absurd (List.cons.inj heq).1 hclosing
      | cons y ys =>
          obtain ⟨after, hafter, hcases⟩ := hsplit x xs rest
          obtain ⟨after', hafter', hcases'⟩ := hsplit y ys rest'
          rw [hafter, hafter'] at heq
          obtain ⟨hxy, hrest⟩ := hitem x List.mem_cons_self y List.mem_cons_self _ _
            (hhead hcases) (hhead hcases') heq
          rcases hcases with ⟨hxs, hend⟩ | ⟨hxs, hend⟩ <;>
            rcases hcases' with ⟨hys, hend'⟩ | ⟨hys, hend'⟩ <;> rw [hend, hend'] at hrest
          · exact ⟨by rw [hxy, hxs, hys], (List.cons.inj hrest).2⟩
          · exact absurd (List.cons.inj hrest).1.symm hne
          · exact absurd (List.cons.inj hrest).1 hne
          · obtain ⟨htail, hlast⟩ := ih
              (fun a ha b hb => hitem a (List.mem_cons_of_mem _ ha) b (List.mem_cons_of_mem _ hb))
              (List.append_cancel_left (List.cons.inj hrest).2)
            exact ⟨by rw [hxy, htail], hlast⟩

end Text

end SimStudio
