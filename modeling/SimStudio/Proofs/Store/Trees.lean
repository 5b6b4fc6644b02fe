import SimStudio.Proofs.Store.Writing

/-!
# Trees and the Ways up in Them

In a tree whatever stands somewhere stands in a directory. All that is done to
stores keeps it so.

A path that goes up asks for the directory that it leaves. Where that one is missing,
the path leads nowhere, although something may stand where it would lead with the
directory in its place: from `x/..` there is a way to what stands beside `x` only while
`x` is there. A path that never fails for this reason is grounded. If it leads
to something that has been standing all along, then it has been leading there all
along, whatever directories have come since (`IsTree.locate_of_grown`).

## Main definitions

* `Store.IsTree`: Whatever stands somewhere stands in a directory.
* `Store.IsGrounded`: A path that does not go up out of a missing directory.

## Theorems

* `Store.IsTree.built`, `Store.IsTree.written`: Trees are kept.
* `Store.Grown.walk_eq`: A way that does not end at something missing stays as it is.
* `Store.IsTree.locate_of_grown`: To what has been there the path has been leading.
* `Store.Written.fresh`: What is written to a free path takes the place of nothing.
-/

namespace SimStudio

namespace Store

/-- Whatever stands somewhere stands in a directory. -/
def IsTree (s : Store) : Prop :=
  ∀ name place, s.node? (name :: place) ≠ none → s.node? place = some .directory

/-- Where a path goes up, that does not fail for want of a directory. -/
def IsGrounded (s : Store) (p : Path) : Prop :=
  ∀ before after, p.components = before ++ ".." :: after →
    s.walk (s.start p) (before ++ [".."]) ≠ .error .missing

-- ## Trees

namespace IsTree

variable {s t : Store} {place q : Location}

/-- What stands in a tree is listed, but for the root. -/
theorem of_nodes (h : ∀ m ∈ s.nodes, m.1 ≠ [] → s.node? m.1.tail = some .directory) :
    s.IsTree := by
  intro name place hne
  obtain ⟨m, hm, heq⟩ := List.mem_map.mp (mem_keys_of_node? (List.cons_ne_nil name place) hne)
  have hdirectory := h m hm (heq ▸ List.cons_ne_nil name place)
  rw [heq] at hdirectory
  exact hdirectory

/-- Something stands above whatever stands somewhere. -/
theorem ne_none_of_suffix (h : s.IsTree) (hplace : place <:+ q) (hq : s.node? q ≠ none) :
    s.node? place ≠ none := by
  induction q with
  | nil => rwa [List.suffix_nil.mp hplace]
  | cons name rest ih =>
      rcases List.suffix_cons_iff.mp hplace with rfl | hrest
      · exact hq
      · refine ih hrest ?_
        rw [h name rest hq]
        exact Option.some_ne_none _

theorem alike (h : s.IsTree) (ht : s.Alike t) : t.IsTree := by
  intro name place hne
  rw [ht.node?] at hne ⊢
  exact h name place hne

/-- In a directory something may be put where no directory stands. -/
theorem put (h : s.IsTree) (habove : s.node? place.tail = some .directory)
    (hhere : s.node? place ≠ some .directory) (n : Node) : (s.put place n).IsTree := by
  have hput := s.node?_put (ne_nil_of_node?_ne hhere) n
  intro name q hne
  rw [hput] at hne
  -- What is put stands below a directory, and nothing has been standing below its place.
  have hq : s.node? q = some .directory := by
    split at hne
    · rename_i heq
      rw [← heq] at habove
      exact habove
    · exact h name q hne
  rw [hput, if_neg fun heq : q = place => hhere (heq ▸ hq), hq]

/-- What is no directory may be taken away. -/
theorem erase (h : s.IsTree) (hhere : s.node? place ≠ some .directory) :
    (s.erase place).IsTree := by
  have herase := s.node?_erase (ne_nil_of_node?_ne hhere)
  intro name q hne
  rw [herase] at hne
  have hq : s.node? q = some .directory := by
    split at hne
    · exact absurd rfl hne
    · exact h name q hne
  rw [herase, if_neg fun heq : q = place => hhere (heq ▸ hq), hq]

theorem createDirectory {p : Path} (h : s.IsTree) (hcreate : s.createDirectory p = .ok t) :
    t.IsTree := by
  obtain ⟨directory, name, hentry, hfree, rfl⟩ := createDirectory_eq_ok hcreate
  obtain ⟨-, before, -, -, hdirectory, -⟩ := (s.locateEntry_eq_ok_iff p directory name).mp hentry
  refine h.put ?_ (ne_directory_of_free hfree) .directory
  exact hdirectory

theorem built {p : Path} (h : s.IsTree) (hbuilt : s.Built p t) : t.IsTree := by
  induction hbuilt with
  | refl => exact h
  | tail _ hstep ih =>
      obtain ⟨above, -, hcreate⟩ := hstep
      exact ih.createDirectory hcreate

theorem written {p : Path} {content : ByteArray} (h : s.IsTree) (hwritten : s.Written p content t) :
    t.IsTree := by
  obtain ⟨directory, name, hentry, hslash, hhere, halike⟩ := hwritten
  refine (h.put ?_ hhere (.file content)).alike halike
  exact (locate_of_locateEntry hentry hslash).2

end IsTree

-- ## Ways

theorem walk_cons_of_none {s : Store} {place : Location} (h : s.node? place = none)
    (name : String) (rest : List String) : s.walk place (name :: rest) = .error .missing := by
  rw [walk_cons, enter, h]
  rfl

theorem walk_cons_of_directory {s : Store} {place : Location}
    (h : s.node? place = some .directory) (name : String) (rest : List String) :
    s.walk place (name :: rest) = advance place name >>= fun next => s.walk next rest := by
  rw [walk_cons, enter, h]
  rfl

/-- Without two points a way leads down. -/
theorem suffix_of_walk {s : Store} {place q : Location} {names : List String}
    (hnames : ".." ∉ names) (h : s.walk place names = .ok q) : place <:+ q := by
  induction names generalizing place with
  | nil =>
      cases h
      exact List.suffix_rfl
  | cons name rest ih =>
      obtain ⟨-, next, hnext, hrest⟩ := (s.walk_cons_eq_ok_iff place name rest q).mp h
      have hname : name ≠ ".." := fun heq => hnames (heq ▸ List.mem_cons_self)
      exact (suffix_of_advance hname hnext).trans
        (ih (fun hmem => hnames (List.mem_cons_of_mem _ hmem)) hrest)

/-- A way that does not end at something missing stays as it is. -/
theorem Grown.walk_eq {s t : Store} (h : s.Grown t) {place : Location} {names : List String}
    (hs : s.walk place names ≠ .error .missing) : t.walk place names = s.walk place names := by
  induction names generalizing place with
  | nil => rfl
  | cons name rest ih =>
      rw [walk_cons] at hs
      rw [walk_cons, walk_cons]
      cases hplace : s.node? place with
      | none =>
          rw [enter, hplace] at hs
          exact absurd rfl hs
      | some n =>
          have henter : t.enter place = s.enter place := by
            rw [enter, enter, h.node? place n hplace, hplace]
          rw [henter]
          cases n with
          | file content =>
              rw [enter, hplace]
              rfl
          | directory =>
              rw [(s.enter_eq_ok_iff place).mpr hplace] at hs ⊢
              cases hnext : advance place name with
              | error e => rfl
              | ok next =>
                  rw [hnext] at hs
                  exact ih hs

/-- A path that never goes up is grounded. -/
theorem IsGrounded.of_not_mem {p : Path} (h : ".." ∉ p.components) (s : Store) :
    s.IsGrounded p := fun _ _ hcomponents => by
  rw [hcomponents] at h
  exact absurd (List.mem_append_right _ List.mem_cons_self) h

theorem IsGrounded.grown {s t : Store} {p : Path} (hp : s.IsGrounded p) (h : s.Grown t) :
    t.IsGrounded p := by
  intro before after hcomponents
  rw [h.keeps.start_eq, h.walk_eq (hp before after hcomponents)]
  exact hp before after hcomponents

/-- A way that leads to what has been there has been leading there, unless it goes up
    out of a directory that was missing. -/
theorem IsTree.walk_of_grown {s t : Store} (htree : s.IsTree) (h : s.Grown t)
    {place q : Location} {names : List String}
    (hgrounded : ∀ before after, names = before ++ ".." :: after →
      s.walk place (before ++ [".."]) ≠ .error .missing)
    (ht : t.walk place names = .ok q) (hq : s.node? q ≠ none) : s.walk place names = .ok q := by
  induction names generalizing place with
  | nil => exact ht
  | cons name rest ih =>
      obtain ⟨hnow, next, hnext, hrest⟩ := (t.walk_cons_eq_ok_iff place name rest q).mp ht
      -- The place has been there: the way goes up from here or below, which is grounded, or it
      -- leads down to `q`, which has been there.
      have hplace : s.node? place ≠ none := by
        intro hnone
        by_cases hup : ".." ∈ name :: rest
        · obtain ⟨before, after, heq⟩ := List.append_of_mem hup
          refine hgrounded before after heq ?_
          cases before with
          | nil => exact walk_cons_of_none hnone ".." []
          | cons first before => exact walk_cons_of_none hnone first (before ++ [".."])
        · exact htree.ne_none_of_suffix (suffix_of_walk hup ht) hq hnone
      obtain ⟨n, hn⟩ := Option.ne_none_iff_exists'.mp hplace
      have hdirectory : s.node? place = some .directory := by
        rw [hn, ← h.node? place n hn, hnow]
      refine (s.walk_cons_eq_ok_iff place name rest q).mpr
        ⟨hdirectory, next, hnext, ih (fun before after heq => ?_) hrest⟩
      have hlater := hgrounded (name :: before) after (congrArg (name :: ·) heq)
      rw [List.cons_append, walk_cons_of_directory hdirectory, hnext] at hlater
      exact hlater

/-- A path that leads to what has been there has been leading there, unless it goes
    up out of a directory that was missing. -/
theorem IsTree.locate_of_grown {s t : Store} (htree : s.IsTree) (h : s.Grown t) {p : Path}
    {q : Location} (hgrounded : s.IsGrounded p) (ht : t.locate p = .ok q)
    (hq : s.node? q ≠ none) : s.locate p = .ok q := by
  obtain ⟨hadmits, hwalk⟩ := (t.locate_eq_ok_iff p q).mp ht
  rw [h.keeps.start_eq] at hwalk
  exact (s.locate_eq_ok_iff p q).mpr ⟨hadmits, htree.walk_of_grown h hgrounded hwalk hq⟩

/-- Below a directory that is reached without going up out of a missing one, so is every
    name. -/
theorem IsGrounded.join {s : Store} {p : Path} {name : String} (hp : s.IsGrounded p)
    (hname : isName name = true) : s.IsGrounded (p.join name) := by
  intro before after hcomponents
  obtain ⟨lead, ⟨rest, hrest⟩, hjoin⟩ := p.components_join name
  rw [hjoin, Path.components_of_isName hname] at hcomponents
  -- The name is no step up, so the step is one of the directory's.
  have hne : name ≠ ".." := by
    rintro rfl
    exact absurd hname (by decide)
  obtain ⟨after', rfl⟩ : ∃ after', lead = before ++ ".." :: after' := by
    rcases List.append_eq_append_iff.mp hcomponents with ⟨more, -, hmore⟩ | ⟨more, hmore, hafter⟩
    · cases more with
      | nil => exact absurd (List.cons.inj hmore).1 hne
      | cons first more => simp at hmore
    · cases more with
      | nil => exact absurd (List.cons.inj hafter).1.symm hne
      | cons first more =>
          obtain ⟨rfl, -⟩ := List.cons.inj hafter
          exact ⟨more, hmore⟩
  have hstart : s.start (p.join name) = s.start p := by
    rw [start, start, Path.isAbsolute_join (Path.isAbsolute_of_isName hname)]
  rw [hstart]
  exact hp before (after' ++ rest) (by rw [← hrest, List.append_assoc, List.cons_append])

/-- What is written to a path that was free takes the place of nothing. -/
theorem Written.fresh {s t u : Store} {p directory : Path} {content : ByteArray}
    (htree : s.IsTree) (hgrounded : s.IsGrounded p) (hfree : s.holds p = false)
    (hbuilt : s.Built directory t) (h : t.Written p content u) :
    s.Grown u ∧ ∃ place, s.node? place = none ∧ u.locate p = .ok place ∧
      u.node? place = some (.file content) := by
  obtain ⟨inside, name, hentry, hslash, hhere, halike⟩ := h
  have hfurnished := hbuilt.prepared.furnished
  obtain ⟨hlocate, -⟩ := locate_of_locateEntry hentry hslash
  -- The path would have been leading to what was there, but it was free.
  have hnone : s.node? (name :: inside) = none := by
    by_contra hne
    have hholds := (s.holds_iff p).mpr
      ⟨_, htree.locate_of_grown hfurnished.grown hgrounded hlocate hne, hne⟩
    rw [hfree] at hholds
    exact Bool.false_ne_true hholds
  have hnone' : t.node? (name :: inside) = none := by
    rcases hfurnished.node? (name :: inside) with heq | ⟨-, hdirectory⟩
    · rw [heq, hnone]
    · exact absurd hdirectory hhere
  refine ⟨hfurnished.grown.trans ((grown_put hnone' _).trans halike.furnished.grown),
    _, hnone, ?_, ?_⟩
  · exact halike.furnished.grown.keeps.locate ((keeps_put_file hhere content).1.locate hlocate)
  · rw [halike.node?, node?_put _ (List.cons_ne_nil name inside), if_pos rfl]

end Store

end SimStudio
