import Mathlib.Algebra.BigOperators.Group.List.Basic
import Mathlib.Data.List.Nodup
import SceneGrammar.Proofs.Expansion.Combinations

/-!
# Sweeping over all combinations of loops

Primed dials that are moved on until there is no next combination come to every index tuple once,
in the order of a mixed-radix count with the first loop most significant. The dials keep the pose of
every prefix of the present tuple, and over the whole sweep a transformation is applied once for
each prefix that ends in its loop: to the pose of the repetition before, or at the first repetition
to the pose of the loop outside. So a random colour is drawn once for a prefix and shared by all the
tuples that extend it.
-/

namespace SceneGrammar

namespace Loop
variable {M : Type}

def combinations (loops : List (Loop M)) : Nat :=
  (loops.map fun loop => loop.repetitions.toNat).prod

/-- The digits of a number to the radices of the loops, the first one most significant. -/
def digits : List (Loop M) → Nat → List Nat
  | [], _ => []
  | _ :: loops, j => j / combinations loops :: digits loops (j % combinations loops)

theorem combinations_cons (loop : Loop M) (loops : List (Loop M)) :
    combinations (loop :: loops) = loop.repetitions.toNat * combinations loops := by
  rw [combinations, List.map_cons, List.prod_cons]
  rfl

theorem digits_cons {loop : Loop M} {loops : List (Loop M)} {k i : Nat}
    (hi : i < combinations loops) :
    digits (loop :: loops) (k * combinations loops + i) = k :: digits loops i := by
  have hpos : 0 < combinations loops := by omega
  rw [digits, Nat.mul_comm, Nat.mul_add_div hpos, Nat.div_eq_of_lt hi, Nat.mul_add_mod,
    Nat.mod_eq_of_lt hi, Nat.add_zero]

theorem range_mul (rows columns : Nat) :
    List.range (rows * columns) =
      (List.range rows).flatMap fun k => (List.range columns).map (k * columns + ·) := by
  induction rows with
  | zero => rw [Nat.zero_mul, List.range_zero, List.flatMap_nil]
  | succ rows ih =>
    rw [Nat.succ_mul, List.range_add, ih, List.range_succ, List.flatMap_append,
      List.flatMap_singleton]

theorem indices_eq_map_digits (loops : List (Loop M)) :
    indices loops = (List.range (combinations loops)).map (digits loops) := by
  induction loops with
  | nil => rfl
  | cons loop loops ih =>
    rw [combinations_cons, range_mul, List.map_flatMap, indices, ih]
    refine List.flatMap_congr fun k _ => ?_
    rw [List.map_map, List.map_map]
    refine List.map_congr_left fun i hi => ?_
    exact (digits_cons (List.mem_range.1 hi)).symm

theorem mem_indices_iff_digits {loops : List (Loop M)} {ks : List Nat} :
    ks ∈ indices loops ↔ ∃ j < combinations loops, digits loops j = ks := by
  rw [indices_eq_map_digits]
  simp only [List.mem_map, List.mem_range]

theorem indices_ne_nil {loops : List (Loop M)}
    (h : ∀ loop ∈ loops, 1 ≤ loop.repetitions.toNat) : indices loops ≠ [] := by
  induction loops with
  | nil => exact List.cons_ne_nil _ _
  | cons loop loops ih =>
    rw [List.forall_mem_cons] at h
    obtain ⟨ks, hks⟩ := List.exists_mem_of_ne_nil _ (ih h.2)
    exact List.ne_nil_of_mem (mem_indices.2 (.cons h.1 (mem_indices.1 hks)))

/-- The prefixes of index tuples that end in a repetition of some loop, each with that loop, in the
order in which nested loops come to them. -/
def stations : List (Loop M) → List (List Nat × Loop M)
  | [] => []
  | loop :: loops =>
    (List.range loop.repetitions.toNat).flatMap fun k =>
      ([k], loop) :: (stations loops).map (Prod.map (k :: ·) id)

theorem ne_nil_of_mem_stations {loops : List (Loop M)} {station : List Nat × Loop M}
    (h : station ∈ stations loops) : station.1 ≠ [] := by
  cases loops with
  | nil => cases h
  | cons loop loops =>
    simp only [stations, List.mem_flatMap, List.mem_cons, List.mem_map] at h
    obtain ⟨k, -, rfl | ⟨inner, -, rfl⟩⟩ := h
    · exact List.cons_ne_nil _ _
    · exact List.cons_ne_nil _ _

theorem map_fst_stations_cons (loop : Loop M) (loops : List (Loop M)) :
    (stations (loop :: loops)).map Prod.fst =
      (List.range loop.repetitions.toNat).flatMap fun k =>
        ([] :: (stations loops).map Prod.fst).map (k :: ·) := by
  simp only [stations, List.map_flatMap, List.map_cons, List.map_map]
  rfl

theorem nodup_stations (loops : List (Loop M)) : ((stations loops).map Prod.fst).Nodup := by
  induction loops with
  | nil => exact List.nodup_nil
  | cons loop loops ih =>
    rw [map_fst_stations_cons, List.nodup_flatMap]
    constructor
    · intro k _
      refine List.Nodup.map (fun _ _ he => (List.cons.inj he).2) (List.nodup_cons.2 ⟨?_, ih⟩)
      intro hnil
      obtain ⟨station, hstation, he⟩ := List.mem_map.1 hnil
      exact ne_nil_of_mem_stations hstation he
    · refine List.nodup_range.imp fun {j k} hjk => ?_
      intro ks hj hk
      obtain ⟨rest, -, rfl⟩ := List.mem_map.1 hj
      obtain ⟨other, -, he⟩ := List.mem_map.1 hk
      exact hjk (List.cons.inj he).1.symm

theorem cons_mem_stations {loop last : Loop M} {loops : List (Loop M)} {k : Nat} {ks : List Nat} :
    (k :: ks, last) ∈ stations (loop :: loops) ↔
      k < loop.repetitions.toNat ∧ ((ks = [] ∧ last = loop) ∨ (ks, last) ∈ stations loops) := by
  simp only [stations, List.mem_flatMap, List.mem_range, List.mem_cons, List.mem_map]
  constructor
  · rintro ⟨k, hk, he | ⟨⟨inner, other⟩, hinner, he⟩⟩
    · cases he
      exact ⟨hk, .inl ⟨rfl, rfl⟩⟩
    · cases he
      exact ⟨hk, .inr hinner⟩
  · rintro ⟨hk, ⟨rfl, rfl⟩ | hinner⟩
    · exact ⟨k, hk, .inl rfl⟩
    · exact ⟨k, hk, .inr ⟨(ks, last), hinner, rfl⟩⟩

theorem exists_indices_cons_iff {loop : Loop M} {loops : List (Loop M)} {k : Nat}
    {ks : List Nat} :
    (∃ full ∈ indices (loop :: loops), k :: ks <+: full) ↔
      k < loop.repetitions.toNat ∧ ∃ full ∈ indices loops, ks <+: full := by
  simp only [indices, List.mem_flatMap, List.mem_range, List.mem_map]
  constructor
  · rintro ⟨_, ⟨j, hj, full, hfull, rfl⟩, hprefix⟩
    obtain ⟨rfl, hrest⟩ := List.cons_prefix_cons.1 hprefix
    exact ⟨hj, full, hfull, hrest⟩
  · rintro ⟨hk, full, hfull, hprefix⟩
    exact ⟨k :: full, ⟨k, hk, full, hfull, rfl⟩, List.cons_prefix_cons.2 ⟨rfl, hprefix⟩⟩

theorem mem_stations {loops : List (Loop M)} (h : ∀ loop ∈ loops, 1 ≤ loop.repetitions.toNat)
    {ks : List Nat} {last : Loop M} :
    (ks, last) ∈ stations loops ↔
      ks ≠ [] ∧ loops[ks.length - 1]? = some last ∧ ∃ full ∈ indices loops, ks <+: full := by
  induction loops generalizing ks with
  | nil => simp [stations]
  | cons loop loops ih =>
    have hloops := (List.forall_mem_cons.1 h).2
    cases ks with
    | nil =>
      constructor
      · intro hks
        exact absurd rfl (ne_nil_of_mem_stations hks)
      · intro hks
        exact absurd rfl hks.1
    | cons k ks =>
      rw [cons_mem_stations, exists_indices_cons_iff, ih hloops]
      cases ks with
      | nil =>
        have hfull : ∃ full, full ∈ indices loops :=
          List.exists_mem_of_ne_nil _ (indices_ne_nil hloops)
        simp [hfull, eq_comm, and_comm]
      | cons l ks =>
        simp [and_left_comm]

variable [Mul M]

/-- Each placement is multiplied on from the right once more than its index says. -/
def placementAt : M → List (Loop M) → List Nat → M
  | placement, loop :: loops, k :: ks =>
    placementAt ((· * loop.transformation.placement)^[k + 1] placement) loops ks
  | placement, _, _ => placement

end Loop

namespace Odometer
open Loop (combinations digits indices stations placementAt)
variable {M : Type}

/-- The dials of an index tuple, each with the pose of the tuple's prefix up to it. -/
def dialsAt : (List Nat → Pose M) → List (Loop M) → List Nat → List (Dial M)
  | pose, loop :: loops, k :: ks =>
    ⟨loop, k, pose [k]⟩ :: dialsAt (fun rest => pose (k :: rest)) loops ks
  | _, _, _ => []

theorem map_count_dialsAt (pose : List Nat → Pose M) {loops : List (Loop M)} {ks : List Nat}
    (h : ks ∈ indices loops) : (dialsAt pose loops ks).map Dial.count = ks := by
  rw [Loop.mem_indices] at h
  induction h generalizing pose with
  | nil => rfl
  | cons hk _ ih => exact congrArg (_ :: ·) (ih _)

theorem reached_dialsAt (pose : List Nat → Pose M) {loops : List (Loop M)} {ks : List Nat}
    (h : ks ∈ indices loops) : reached (pose []) (dialsAt pose loops ks) = pose ks := by
  rw [Loop.mem_indices] at h
  induction h generalizing pose with
  | nil => rfl
  | cons hk _ ih =>
    rw [dialsAt, reached_cons]
    exact ih _

/-- The prefix whose pose a station goes on from: that of the repetition before it, or at the first
repetition that of the loop outside. -/
def before : List Nat → List Nat
  | [] => []
  | [0] => []
  | [k + 1] => [k]
  | k :: l :: ks => k :: before (l :: ks)

theorem before_cons (k : Nat) {ks : List Nat} (h : ks ≠ []) :
    before (k :: ks) = k :: before ks := by
  cases ks with
  | nil => exact absurd rfl h
  | cons l ks => cases k <;> rfl

variable [Mul M]

/-- The loops of these stations are applied one after another, each once, and each application
gives the pose of its station. -/
inductive Applied (pool : Pool) (pose : List Nat → Pose M) :
    Generator → List (List Nat × Loop M) → Generator → Prop
  | nil (g : Generator) : Applied pool pose g [] g
  | cons {ks : List Nat} {loop : Loop M} {later : List (List Nat × Loop M)} {g g₁ g' : Generator}
      (h : (loop.transformation.apply pool (pose (before ks))).run g = (pose ks, g₁))
      (rest : Applied pool pose g₁ later g') : Applied pool pose g ((ks, loop) :: later) g'

theorem Applied.append {pool : Pool} {pose : List Nat → Pose M} {g g₁ g' : Generator}
    {first later : List (List Nat × Loop M)} (h : Applied pool pose g first g₁)
    (rest : Applied pool pose g₁ later g') : Applied pool pose g (first ++ later) g' := by
  induction h with
  | nil => exact rest
  | cons h _ ih => exact .cons h (ih rest)

theorem Applied.beneath {pool : Pool} {pose : List Nat → Pose M} {g g' : Generator} {k : Nat}
    {inner : List (List Nat × Loop M)} (h : Applied pool (fun ks => pose (k :: ks)) g inner g')
    (hne : ∀ station ∈ inner, station.1 ≠ []) :
    Applied pool pose g (inner.map (Prod.map (k :: ·) id)) g' := by
  induction h with
  | nil => exact .nil _
  | @cons ks loop later g g₁ g' happly _ ih =>
    rw [List.forall_mem_cons] at hne
    refine .cons ?_ (ih hne.2)
    rw [before_cons k hne.1]
    exact happly

/-- Moving on from these dials comes to these, one after another, and finds no next combination
at the last of them and at no other. -/
inductive Sweeps (pool : Pool) :
    List (Dial M) → Generator → List (List (Dial M)) → Generator → Prop
  | last {dials : List (Dial M)} {g g' : Generator}
      (h : (advance pool dials).run g = (none, g')) : Sweeps pool dials g [dials] g'
  | next {dials moved : List (Dial M)} {later : List (List (Dial M))} {g g₁ g' : Generator}
      (h : (advance pool dials).run g = (some moved, g₁)) (rest : Sweeps pool moved g₁ later g') :
      Sweeps pool dials g (dials :: later) g'

section
variable {pool : Pool} {dial : Dial M} {inner fresh : List (Dial M)}
  {visits more : List (List (Dial M))} {pose : Pose M} {g g₁ g₂ g₃ g' : Generator}

theorem Sweeps.beneath_last (h : Sweeps pool inner g visits g')
    (hc : ¬ dial.count + 1 < dial.loop.repetitions.toNat) :
    Sweeps pool (dial :: inner) g (visits.map (dial :: ·)) g' := by
  induction h with
  | last h =>
    refine .last ?_
    rw [advance_cons, h]
    exact if_neg hc
  | next h _ ih =>
    refine .next ?_ ih
    rw [advance_cons, h]

/-- After the last combination inside, a dial with repetitions left takes its next one and
restarts those inside. -/
theorem Sweeps.beneath_next (h : Sweeps pool inner g visits g₁)
    (hc : dial.count + 1 < dial.loop.repetitions.toNat)
    (hpose : (dial.loop.transformation.apply pool dial.pose).run g₁ = (pose, g₂))
    (hfresh : (prime pool pose (inner.map Dial.loop)).run g₂ = (fresh, g₃))
    (hmore : Sweeps pool (⟨dial.loop, dial.count + 1, pose⟩ :: fresh) g₃ more g') :
    Sweeps pool (dial :: inner) g (visits.map (dial :: ·) ++ more) g' := by
  induction h with
  | last h =>
    refine .next ?_ hmore
    rw [advance_cons, h]
    dsimp only
    rw [if_pos hc, hpose]
    dsimp only
    rw [hfresh]
  | @next dials moved later g g₁ g' h _ ih =>
    have hloops : moved.map Dial.loop = dials.map Dial.loop :=
      (advance_lowers (congrArg Prod.fst h)).1
    refine .next ?_ (ih hpose (hloops ▸ hfresh))
    rw [advance_cons, h]

end

/-- One repetition of a loop on a pose and a generator. -/
def onward (pool : Pool) (loop : Loop M) (s : Pose M × Generator) : Pose M × Generator :=
  (loop.transformation.apply pool s.1).run s.2

/-- The generator after nested loops. The inner ones leave the pose of the outer one alone. -/
def after (pool : Pool) : List (Loop M) → Pose M × Generator → Generator
  | [], s => s.2
  | loop :: loops, s =>
    let lap (s : Pose M × Generator) :=
      ((onward pool loop s).1, after pool loops (onward pool loop s))
    (lap^[loop.repetitions.toNat] s).2

/-- One repetition of a loop with others inside. -/
def lap (pool : Pool) (loop : Loop M) (loops : List (Loop M)) (s : Pose M × Generator) :
    Pose M × Generator :=
  ((onward pool loop s).1, after pool loops (onward pool loop s))

/-- The pose that nested loops come to at a prefix of an index tuple. -/
def poseOf (pool : Pool) : List (Loop M) → Pose M × Generator → List Nat → Pose M
  | loop :: loops, s, k :: ks =>
    poseOf pool loops (onward pool loop ((lap pool loop loops)^[k] s)) ks
  | _, s, _ => s.1

theorem poseOf_nil (pool : Pool) (loops : List (Loop M)) (s : Pose M × Generator) :
    poseOf pool loops s [] = s.1 := by
  cases loops <;> rfl

theorem after_cons (pool : Pool) (loop : Loop M) (loops : List (Loop M)) (s : Pose M × Generator) :
    after pool (loop :: loops) s = ((lap pool loop loops)^[loop.repetitions.toNat] s).2 := rfl

theorem fst_lap_iterate_succ (pool : Pool) (loop : Loop M) (loops : List (Loop M))
    (s : Pose M × Generator) (k : Nat) :
    ((lap pool loop loops)^[k + 1] s).1 =
      (onward pool loop ((lap pool loop loops)^[k] s)).1 := by
  rw [Function.iterate_succ_apply']
  rfl

theorem placement_lap_iterate (pool : Pool) (loop : Loop M) (loops : List (Loop M))
    (s : Pose M × Generator) (k : Nat) :
    ((lap pool loop loops)^[k] s).1.placement =
      (· * loop.transformation.placement)^[k] s.1.placement := by
  induction k with
  | zero => rfl
  | succ k ih =>
    rw [fst_lap_iterate_succ, Function.iterate_succ_apply', ← ih]
    rfl

theorem fst_lap_iterate_of_not_drawsColor {loop : Loop M}
    (h : loop.transformation.drawsColor = false) (pool : Pool) (loops : List (Loop M))
    (s : Pose M × Generator) (k : Nat) :
    ((lap pool loop loops)^[k] s).1 = loop.transformation.onPose^[k] s.1 := by
  induction k with
  | zero => rfl
  | succ k ih =>
    rw [fst_lap_iterate_succ, Function.iterate_succ_apply', onward,
      Transformation.run_apply_of_not_drawsColor h, ih]

theorem placement_poseOf (pool : Pool) (loops : List (Loop M)) (s : Pose M × Generator)
    (ks : List Nat) :
    (poseOf pool loops s ks).placement = placementAt s.1.placement loops ks := by
  induction loops generalizing s ks with
  | nil => rfl
  | cons loop loops ih =>
    cases ks with
    | nil => rfl
    | cons k ks =>
      rw [poseOf, placementAt, ih, ← placement_lap_iterate pool loop loops,
        fst_lap_iterate_succ]

theorem poseOf_of_not_drawsColor {loops : List (Loop M)}
    (h : ∀ loop ∈ loops, loop.transformation.drawsColor = false) (pool : Pool)
    (s : Pose M × Generator) (ks : List Nat) :
    poseOf pool loops s ks = Loop.poseAt s.1 loops ks := by
  induction loops generalizing s ks with
  | nil => rfl
  | cons loop loops ih =>
    rw [List.forall_mem_cons] at h
    cases ks with
    | nil => rfl
    | cons k ks =>
      rw [poseOf, Loop.poseAt, ih h.2, ← fst_lap_iterate_succ,
        fst_lap_iterate_of_not_drawsColor h.1]

theorem applied_stations (pool : Pool) (loops : List (Loop M)) (s : Pose M × Generator) :
    Applied pool (poseOf pool loops s) s.2 (stations loops) (after pool loops s) := by
  induction loops generalizing s with
  | nil => exact .nil _
  | cons loop loops ih =>
    rw [after_cons, stations]
    generalize loop.repetitions.toNat = count
    -- Each lap starts where the one before it ended.
    induction count with
    | zero => exact .nil _
    | succ k ihk =>
      rw [List.range_succ, List.flatMap_append, List.flatMap_singleton,
        Function.iterate_succ_apply']
      refine ihk.append (.cons ?_ ((ih _).beneath fun _ => Loop.ne_nil_of_mem_stations))
      have hbefore : poseOf pool (loop :: loops) s (before [k]) =
          ((lap pool loop loops)^[k] s).1 := by
        cases k with
        | zero => rfl
        | succ k => rw [before, poseOf, poseOf_nil, fst_lap_iterate_succ]
      have hpose : poseOf pool (loop :: loops) s [k] =
          (onward pool loop ((lap pool loop loops)^[k] s)).1 := by
        rw [poseOf, poseOf_nil]
      rw [hbefore, hpose]
      rfl

theorem map_dialsAt_cons (pool : Pool) (loop : Loop M) (loops : List (Loop M))
    {s here : Pose M × Generator} {k : Nat}
    (h : onward pool loop ((lap pool loop loops)^[k] s) = here) :
    ((indices loops).map fun ks =>
      dialsAt (poseOf pool (loop :: loops) s) (loop :: loops) (k :: ks)) =
      ((indices loops).map (dialsAt (poseOf pool loops here) loops)).map
        (⟨loop, k, here.1⟩ :: ·) := by
  subst h
  rw [List.map_map]
  refine List.map_congr_left fun ks _ => ?_
  simp only [dialsAt, poseOf, poseOf_nil, Function.comp]

/-- The laps of a loop from a repetition on, if its inner dials sweep over their combinations. -/
theorem sweeps_laps {pool : Pool} {loop : Loop M} {loops : List (Loop M)}
    (hinner : ∀ s : Pose M × Generator,
      Sweeps pool ((prime pool s.1 loops).run s.2).1 ((prime pool s.1 loops).run s.2).2
        ((indices loops).map (dialsAt (poseOf pool loops s) loops)) (after pool loops s))
    (s : Pose M × Generator) {k count : Nat} (h : k + count + 1 = loop.repetitions.toNat) :
    let here := onward pool loop ((lap pool loop loops)^[k] s)
    Sweeps pool (⟨loop, k, here.1⟩ :: ((prime pool here.1 loops).run here.2).1)
      ((prime pool here.1 loops).run here.2).2
      ((List.range' k (count + 1)).flatMap fun k => (indices loops).map fun ks =>
        dialsAt (poseOf pool (loop :: loops) s) (loop :: loops) (k :: ks))
      (after pool (loop :: loops) s) := by
  induction count generalizing k with
  | zero =>
    intro here
    have hlast : after pool (loop :: loops) s = after pool loops here := by
      rw [after_cons, ← h, Function.iterate_succ_apply']
      rfl
    have hdone : ¬ k + 1 < loop.repetitions.toNat := by omega
    rw [List.range'_one, List.flatMap_singleton, map_dialsAt_cons pool loop loops rfl, hlast]
    exact (hinner here).beneath_last hdone
  | succ count ih =>
    intro here
    have hleft : k + 1 < loop.repetitions.toNat := by omega
    let next := onward pool loop ((lap pool loop loops)^[k + 1] s)
    have hpose : (loop.transformation.apply pool here.1).run (after pool loops here) =
        (next.1, next.2) := by
      simp only [next]
      rw [Function.iterate_succ_apply']
      rfl
    have hfresh : (prime pool next.1 (((prime pool here.1 loops).run here.2).1.map Dial.loop)).run
        next.2 = (prime pool next.1 loops).run next.2 := by rw [map_loop_prime]
    have hmore := @ih (k + 1) (by omega)
    rw [List.range'_succ, List.flatMap_cons, map_dialsAt_cons pool loop loops rfl]
    exact (hinner here).beneath_next hleft hpose hfresh hmore

theorem sweeps_prime {loops : List (Loop M)} (h : ∀ loop ∈ loops, 1 ≤ loop.repetitions.toNat)
    (pool : Pool) (s : Pose M × Generator) :
    Sweeps pool ((prime pool s.1 loops).run s.2).1 ((prime pool s.1 loops).run s.2).2
      ((indices loops).map (dialsAt (poseOf pool loops s) loops)) (after pool loops s) := by
  induction loops generalizing s with
  | nil => exact .last rfl
  | cons loop loops ih =>
    rw [List.forall_mem_cons] at h
    have hcount : 0 + (loop.repetitions.toNat - 1) + 1 = loop.repetitions.toNat := by omega
    have hlaps := sweeps_laps (ih h.2) s hcount
    rw [Nat.sub_add_cancel h.1, ← List.range_eq_range'] at hlaps
    rw [indices, List.map_flatMap]
    simp only [List.map_map]
    exact hlaps

/-- Primed dials come to as many combinations as the repetitions multiply to, the `j`-th one with
the digits of `j` as its counts and with the pose that each transformation gives when it is
multiplied on once more than its digit says. Every prefix of digits has one pose, for which the
transformation of its last loop is applied once. -/
theorem exists_sweep {loops : List (Loop M)} (h : ∀ loop ∈ loops, 1 ≤ loop.repetitions.toNat)
    (pool : Pool) (input : Pose M) (g : Generator) :
    ∃ (visits : List (List (Dial M))) (pose : List Nat → Pose M) (g' : Generator),
      Sweeps pool ((prime pool input loops).run g).1 ((prime pool input loops).run g).2 visits g' ∧
      visits.length = combinations loops ∧
      (∀ (j : Nat) (hj : j < visits.length),
        visits[j] = dialsAt pose loops (digits loops j) ∧
        visits[j].map Dial.count = digits loops j ∧
        reached input visits[j] = pose (digits loops j) ∧
        (reached input visits[j]).placement =
          placementAt input.placement loops (digits loops j) ∧
        ((∀ loop ∈ loops, loop.transformation.drawsColor = false) →
          reached input visits[j] = Loop.poseAt input loops (digits loops j))) ∧
      pose [] = input ∧ Applied pool pose g (stations loops) g' ∧
      ((stations loops).map Prod.fst).Nodup ∧
      ∀ (ks : List Nat) (loop : Loop M), (ks, loop) ∈ stations loops ↔
        ks ≠ [] ∧ loops[ks.length - 1]? = some loop ∧
          ∃ j < combinations loops, ks <+: digits loops j := by
  have hpose : poseOf pool loops (input, g) [] = input := poseOf_nil pool loops (input, g)
  have hsweep := sweeps_prime h pool (input, g)
  rw [Loop.indices_eq_map_digits, List.map_map] at hsweep
  refine ⟨_, poseOf pool loops (input, g), _, hsweep, ?_, ?_, hpose,
    applied_stations pool loops (input, g), Loop.nodup_stations loops, ?_⟩
  · rw [List.length_map, List.length_range]
  · intro j hj
    rw [List.length_map, List.length_range] at hj
    have hmem : digits loops j ∈ indices loops := Loop.mem_indices_iff_digits.2 ⟨j, hj, rfl⟩
    have hreached := reached_dialsAt (poseOf pool loops (input, g)) hmem
    rw [hpose] at hreached
    rw [List.getElem_map, List.getElem_range, Function.comp, hreached]
    refine ⟨rfl, map_count_dialsAt _ hmem, rfl, placement_poseOf pool loops _ _, ?_⟩
    intro hplain
    exact poseOf_of_not_drawsColor hplain pool _ _
  · intro ks loop
    rw [Loop.mem_stations h]
    refine and_congr_right fun _ => and_congr_right fun _ => ?_
    simp only [Loop.mem_indices_iff_digits, exists_exists_and_eq_and]

/-- Two rows of three; each row takes a colour of its own from the pool. -/
def colorfulRows : List (Loop Matrix) :=
  [⟨2, .ofOperations [.move .y 1, .random]⟩, ⟨3, .ofOperations [.move .x 1]⟩]

theorem exists_sweep_colorfulRows :
    (∀ loop ∈ colorfulRows, 1 ≤ loop.repetitions.toNat) ∧
      ∃ (visits : List (List (Dial Matrix))) (pose : List Nat → Pose Matrix) (g' : Generator),
        Sweeps .randomHue ((prime .randomHue ⟨1, .pureRed⟩ colorfulRows).run (.ofSeed 7)).1
          ((prime .randomHue ⟨1, .pureRed⟩ colorfulRows).run (.ofSeed 7)).2 visits g' ∧
        visits.length = 6 ∧
        (∀ (j : Nat) (hj : j < visits.length), visits[j].map Dial.count = [j / 3, j % 3]) ∧
        Applied .randomHue pose (.ofSeed 7) (stations colorfulRows) g' ∧
        (stations colorfulRows).map Prod.fst =
          [[0], [0, 0], [0, 1], [0, 2], [1], [1, 0], [1, 1], [1, 2]] := by
  have h : ∀ loop ∈ colorfulRows, 1 ≤ loop.repetitions.toNat := by decide
  obtain ⟨visits, pose, g', hsweeps, hlength, hvisits, -, happlied, -, -⟩ :=
    exists_sweep h .randomHue ⟨1, .pureRed⟩ (.ofSeed 7)
  refine ⟨h, visits, pose, g', hsweeps, hlength, ?_, happlied, rfl⟩
  intro j hj
  have hdigits : digits colorfulRows j = [j / 3, j % 3 / 1] := rfl
  rw [(hvisits j hj).2.1, hdigits, Nat.div_one]

end Odometer

end SceneGrammar
