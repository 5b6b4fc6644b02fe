import SimStudio.Project.Validity
import SimStudio.Proofs.Configuration.Sections

/-!
# The Numbers of Agents

The agents of all roles are numbered without a gap from 1 on. The sum of the
counts decides whether there are such numbers: the first number that is not
given away is computed for every role, the last one included, and it has to be a
word.

This is the only way in which a project has no configuration, since nothing else
that is computed for one can fail. The rules for projects do not exclude it: they
say nothing about the counts of roles.

## Main definitions

* `agentTotal`: How many agents roles have together.
* `NumbersAgents`: The numbers of the agents of roles, and whose they are.
* `Project.agentCount`, `Project.agentNumbers`: The agents of a project.
* `Project.crowded`: A project with one role that has the greatest count.

## Theorems

* `addWords_eq`: When the sum of two words is a word.
* `poolFrom_eq`: A pool is a run of consecutive numbers.
* `pool_append`: Later roles are numbered behind earlier ones.
* `pool_exact_or_overflow`: Every agent is numbered once, or there is no pool.
* `Project.compile_of_agentCount`: Which projects have a configuration.
-/

namespace SimStudio

/-- Two words are added as numbers, or not at all. -/
theorem addWords_eq {a b : UInt32} (h : a.toNat + b.toNat < UInt32.size) :
    addWords a b = .ok (a + b) ∧ (a + b).toNat = a.toNat + b.toNat :=
  ⟨if_pos h, by rw [UInt32.toNat_add, Nat.mod_eq_of_lt h]⟩

/-- A pool is a run of consecutive numbers, if the one after it is a word, too. -/
theorem poolFrom_eq (next : UInt32) (counts : List UInt32) :
    poolFrom next counts =
      if next.toNat + (counts.map UInt32.toNat).sum < UInt32.size then
        .ok ((List.range' next.toNat (counts.map UInt32.toNat).sum).map UInt32.ofNat)
      else .error .additionOverflow := by
  -- The first free number goes up with every role, so the induction is for all of them.
  induction counts generalizing next with
  | nil =>
      rw [poolFrom, List.map_nil, List.sum_nil, Nat.add_zero, if_pos next.toNat_lt]
      rfl
  | cons count counts ih =>
      rw [poolFrom, List.map_cons, List.sum_cons]
      by_cases hfits : next.toNat + count.toNat < UInt32.size
      · obtain ⟨hafter, hnat⟩ := addWords_eq hfits
        have hrun : idsFrom next count ++
            (List.range' (next.toNat + count.toNat) (counts.map UInt32.toNat).sum).map
              UInt32.ofNat =
            (List.range' next.toNat (count.toNat + (counts.map UInt32.toNat).sum)).map
              UInt32.ofNat := by
          rw [idsFrom, ← List.map_append, List.range'_append_1]
        rw [hafter]
        -- What the later roles get is the rest of the run, or their overflow is that of all.
        change (poolFrom (next + count) counts >>= fun others =>
          pure (idsFrom next count ++ others)) = _
        rw [ih, hnat, Nat.add_assoc]
        split
        · exact congrArg Except.ok hrun
        · rfl
      · -- An overflow at this role is one at the end, too: the sum only grows.
        have hbeyond :
            ¬next.toNat + (count.toNat + (counts.map UInt32.toNat).sum) < UInt32.size := by
          omega
        rw [addWords, if_neg hfits, if_neg hbeyond]
        rfl

-- ## Roles in Their Order

/-- How many agents roles have together. -/
def agentTotal (roles : List Role) : Nat := (roles.map fun r => r.count.toNat).sum

theorem agentTotal_append (earlier later : List Role) :
    agentTotal (earlier ++ later) = agentTotal earlier + agentTotal later := by
  rw [agentTotal, List.map_append, List.sum_append]
  rfl

theorem agentTotal_cons (r : Role) (later : List Role) :
    agentTotal (r :: later) = r.count.toNat + agentTotal later :=
  List.sum_cons

/-- The pool of roles is decided by how many agents they have. -/
theorem pool_eq (roles : List Role) :
    pool (roles.map Role.count) =
      if 1 + agentTotal roles < UInt32.size then
        .ok ((List.range' 1 (agentTotal roles)).map UInt32.ofNat)
      else .error .additionOverflow := by
  rw [pool, poolFrom_eq, List.map_map]
  rfl

/-- Words made of numbers that are words stand for these numbers. -/
theorem map_toNat_map_ofNat {ns : List Nat} (h : ∀ n ∈ ns, n < UInt32.size) :
    (ns.map UInt32.ofNat).map UInt32.toNat = ns := by
  rw [List.map_map]
  exact (List.map_congr_left fun n hn => UInt32.toNat_ofNat_of_lt' (h n hn)).trans (List.map_id ns)

/-- A pool holds all numbers from 1 to how many agents there are. -/
theorem pool_eq_ok {roles : List Role} {ids : List UInt32}
    (h : pool (roles.map Role.count) = .ok ids) :
    1 + agentTotal roles < UInt32.size ∧
      ids.map UInt32.toNat = List.range' 1 (agentTotal roles) := by
  rw [pool_eq] at h
  split at h
  · rename_i hfits
    refine ⟨hfits, ?_⟩
    rw [← Except.ok.inj h, map_toNat_map_ofNat]
    intro n hn
    rw [List.mem_range'_1] at hn
    omega
  · cases h

/-- Later roles are numbered as they would be alone, shifted by the agents of the
    earlier ones. -/
theorem pool_append {earlier later : List Role} {ids : List UInt32}
    (h : pool ((earlier ++ later).map Role.count) = .ok ids) :
    ∃ idsEarlier idsLater, pool (earlier.map Role.count) = .ok idsEarlier ∧
      pool (later.map Role.count) = .ok idsLater ∧
      ids.map UInt32.toNat = idsEarlier.map UInt32.toNat ++
        (idsLater.map UInt32.toNat).map (agentTotal earlier + ·) := by
  obtain ⟨hfits, hids⟩ := pool_eq_ok h
  rw [agentTotal_append] at hfits hids
  have hearlier := pool_eq earlier
  have hlater := pool_eq later
  rw [if_pos (by omega)] at hearlier hlater
  refine ⟨_, _, hearlier, hlater, ?_⟩
  rw [hids, (pool_eq_ok hearlier).2, (pool_eq_ok hlater).2, ← List.range'_append_1,
    List.map_add_range', Nat.add_comm 1 (agentTotal earlier)]

/-- The numbers of the agents of roles, and whose they are. -/
structure NumbersAgents (roles : List Role) (ids : List UInt32) : Prop where
  /-- All from 1 on, in order. -/
  consecutive : ids.map UInt32.toNat = List.range' 1 (agentTotal roles)
  /-- None of them twice. -/
  distinct : ids.Nodup
  /-- A role owns as many as it has agents, behind those of the roles before it. -/
  owned : ∀ before r after, roles = before ++ r :: after →
    ((ids.drop (agentTotal before)).take r.count.toNat).map UInt32.toNat =
      List.range' (1 + agentTotal before) r.count.toNat
  /-- Later roles are numbered as they would be alone, behind the earlier ones. -/
  shifted : ∀ earlier later, roles = earlier ++ later →
    ∃ idsEarlier idsLater, pool (earlier.map Role.count) = .ok idsEarlier ∧
      pool (later.map Role.count) = .ok idsLater ∧
      ids.map UInt32.toNat = idsEarlier.map UInt32.toNat ++
        (idsLater.map UInt32.toNat).map (agentTotal earlier + ·)

/-- A pool numbers the agents of its roles. -/
theorem numbersAgents_of_pool {roles : List Role} {ids : List UInt32}
    (h : pool (roles.map Role.count) = .ok ids) : NumbersAgents roles ids := by
  have hids := (pool_eq_ok h).2
  refine ⟨hids, ?_, fun before r after hroles => ?_, fun earlier later hroles => ?_⟩
  · have hnodup : (ids.map UInt32.toNat).Nodup := hids ▸ List.nodup_range'
    exact List.Pairwise.of_map UInt32.toNat (fun _ _ hne heq => hne (congrArg _ heq)) hnodup
  · -- What stands behind the block of the role is cut off on either side.
    have htotal : agentTotal roles =
        agentTotal before + (r.count.toNat + agentTotal after) := by
      rw [hroles, agentTotal_append, agentTotal_cons]
    rw [List.map_take, List.map_drop, hids, htotal, List.drop_range', Nat.mul_one,
      Nat.add_sub_cancel_left, ← List.range'_append_1, List.take_left' List.length_range']
  · subst hroles
    exact pool_append h

/-- Every agent has one number: those from 1 on, role by role, without a gap. If the
    number after the last one is no word, the numbering overflows instead, and there is
    no pool. -/
theorem pool_exact_or_overflow (roles : List Role) :
    (agentTotal roles + 1 ≤ 2 ^ 32 - 1 ∧
      ∃ ids, pool (roles.map Role.count) = .ok ids ∧ NumbersAgents roles ids) ∨
    (2 ^ 32 - 1 < agentTotal roles + 1 ∧
      pool (roles.map Role.count) = .error .additionOverflow) := by
  have hsize : UInt32.size = 2 ^ 32 := rfl
  have hpool := pool_eq roles
  by_cases hfits : 1 + agentTotal roles < UInt32.size
  · rw [if_pos hfits] at hpool
    exact .inl ⟨by omega, _, hpool, numbersAgents_of_pool hpool⟩
  · rw [if_neg hfits] at hpool
    exact .inr ⟨by omega, hpool⟩

namespace Project

/-- How many agents a project has. -/
def agentCount (p : Project) : Nat := agentTotal p.roles

/-- The numbers of the agents of a project. -/
def agentNumbers (p : Project) : List UInt32 := (List.range' 1 p.agentCount).map UInt32.ofNat

/-- A project has a configuration exactly if the number after its last agent is a
    word. Otherwise the numbering of its agents overflows. -/
theorem compile_of_agentCount (p : Project) (server : Server) :
    p.compile server =
      if 1 + p.agentCount < UInt32.size then .ok (renderLines (p.laidOut server p.agentNumbers))
      else .error .additionOverflow := by
  have hpool : pool (p.roles.map Role.count) =
      if 1 + p.agentCount < UInt32.size then .ok p.agentNumbers else .error .additionOverflow :=
    pool_eq p.roles
  rw [compile, configuration, hpool]
  split
  · rfl
  · rfl

/-- A project with one role that has the greatest count. -/
def crowded : Project where
  name := "a"
  roles := [{ id := 1, name := "r", count := 4294967295 }]

/-- The rules are kept by a project that has no configuration. -/
theorem compile_crowded :
    crowded.validate = .ok crowded ∧ crowded.compile {} = .error .additionOverflow :=
  ⟨rfl, rfl⟩

end Project

end SimStudio
