import Mathlib.Data.List.Forall2
import Mathlib.Logic.Function.Iterate
import SceneGrammar.Proofs.Expansion.Reachable

/-!
# Combinations of loops

Where no loop draws a random colour, the dials of an action come to the poses of its index tuples in
lexicographic order: the pose of a tuple applies every transformation once more than its index says.
The dials apply one transformation a move and keep what they have reached, so the proofs follow the
poses that are still to come.
-/

namespace SceneGrammar

namespace Transformation
variable {M : Type}

def tint (t : Transformation M) (color : Rgba) : Rgba :=
  match t.absolute with
  | some absolute => absolute
  | none =>
    match t.blend with
    | some blend => (t.fade (t.recolorHsv color)).blend blend.color blend.strength
    | none => t.fade (t.recolorHsv color)

theorem recolor_of_not_drawsColor {t : Transformation M} (h : t.drawsColor = false) (pool : Pool)
    (color : Rgba) : t.recolor pool color = pure (t.tint color) := by
  cases ha : t.absolute with
  | some absolute => simp only [recolor, tint, ha]
  | none =>
    have hr : t.random = false := by simpa [drawsColor, ha] using h
    cases hb : t.blend <;> simp [recolor, tint, ha, hr, hb]

variable [Mul M]

def onPose (t : Transformation M) (pose : Pose M) : Pose M :=
  ⟨pose.placement * t.placement, t.tint pose.color⟩

theorem run_apply_of_not_drawsColor {t : Transformation M} (h : t.drawsColor = false) (pool : Pool)
    (pose : Pose M) (g : Generator) : (t.apply pool pose).run g = (t.onPose pose, g) := by
  rw [apply, recolor_of_not_drawsColor h]
  rfl

end Transformation

namespace Loop
variable {M : Type}

def Plain (loop : Loop M) : Prop :=
  loop.transformation.drawsColor = false ∧ 1 ≤ loop.repetitions.toNat

instance (loop : Loop M) : Decidable loop.Plain := inferInstanceAs (Decidable (_ ∧ _))

/-- The index tuples in lexicographic order, the first loop varying slowest. -/
def indices : List (Loop M) → List (List Nat)
  | [] => [[]]
  | loop :: loops =>
    (List.range loop.repetitions.toNat).flatMap fun k => (indices loops).map (k :: ·)

theorem mem_indices {loops : List (Loop M)} {ks : List Nat} :
    ks ∈ indices loops ↔ List.Forall₂ (fun k loop => k < loop.repetitions.toNat) ks loops := by
  induction loops generalizing ks with
  | nil =>
    rw [indices, List.mem_singleton]
    constructor
    · rintro rfl
      exact .nil
    · intro h
      cases h
      rfl
  | cons loop loops ih =>
    simp only [indices, List.mem_flatMap, List.mem_range, List.mem_map, ih]
    constructor
    · rintro ⟨k, hk, rest, hrest, rfl⟩
      exact .cons hk hrest
    · intro h
      cases h with
      | cons hk hrest => exact ⟨_, hk, _, hrest, rfl⟩

theorem indices_pairwise_lex (loops : List (Loop M)) :
    (indices loops).Pairwise (List.Lex (· < ·)) := by
  induction loops with
  | nil => exact List.pairwise_singleton _ _
  | cons loop loops ih =>
    rw [indices, List.pairwise_flatMap]
    constructor
    · intro k _
      rw [List.pairwise_map]
      exact ih.imp fun h => .cons h
    · refine List.pairwise_lt_range.imp fun {j k} hjk => ?_
      intro first hfirst second hsecond
      obtain ⟨restFirst, -, rfl⟩ := List.mem_map.1 hfirst
      obtain ⟨restSecond, -, rfl⟩ := List.mem_map.1 hsecond
      exact .rel hjk

variable [Mul M]

/-- Each transformation is applied once more than its index says, the first one first. -/
def poseAt : Pose M → List (Loop M) → List Nat → Pose M
  | pose, loop :: loops, k :: ks => poseAt (loop.transformation.onPose^[k + 1] pose) loops ks
  | pose, _, _ => pose

def poses (pose : Pose M) (loops : List (Loop M)) : List (Pose M) :=
  (indices loops).map (poseAt pose loops)

/-- The poses of the next so many repetitions of a loop with others inside. -/
def laps (loop : Loop M) (loops : List (Loop M)) (pose : Pose M) (count : Nat) : List (Pose M) :=
  (List.range count).flatMap fun k => poses (loop.transformation.onPose^[k + 1] pose) loops

theorem poses_cons (pose : Pose M) (loop : Loop M) (loops : List (Loop M)) :
    poses pose (loop :: loops) = laps loop loops pose loop.repetitions.toNat := by
  simp only [poses, laps, indices, List.map_flatMap, List.map_map]
  rfl

theorem laps_succ (loop : Loop M) (loops : List (Loop M)) (pose : Pose M) (count : Nat) :
    laps loop loops pose (count + 1) =
      poses (loop.transformation.onPose pose) loops ++
        laps loop loops (loop.transformation.onPose pose) count := by
  simp only [laps, List.range_succ_eq_map, List.flatMap_cons, List.flatMap_map,
    Function.iterate_succ_apply]
  rfl

end Loop

namespace Odometer
open Loop (poses laps)
variable {M : Type}

def reached (input : Pose M) (dials : List (Dial M)) : Pose M :=
  (dials.getLast?.map Dial.pose).getD input

theorem reached_cons (input : Pose M) (dial : Dial M) (dials : List (Dial M)) :
    reached input (dial :: dials) = reached dial.pose dials := by
  cases h : dials.getLast? <;> simp [reached, List.getLast?_cons, h]

variable [Mul M]

def posesLeft : Pose M → List (Dial M) → List (Pose M)
  | input, [] => [input]
  | _, dial :: dials =>
    posesLeft dial.pose dials ++
      laps dial.loop (dials.map Dial.loop) dial.pose (dial.loop.repetitions.toNat - 1 - dial.count)

theorem prime_cons (pool : Pool) (pose : Pose M) (loop : Loop M) (loops : List (Loop M))
    (g : Generator) :
    (prime pool pose (loop :: loops)).run g =
      let (pose, g) := (loop.transformation.apply pool pose).run g
      let (dials, g) := (prime pool pose loops).run g
      (⟨loop, 0, pose⟩ :: dials, g) := rfl

theorem run_prime_plain {loops : List (Loop M)} (h : ∀ loop ∈ loops, loop.Plain) (pool : Pool)
    (input : Pose M) (g : Generator) :
    ∃ dials, (prime pool input loops).run g = (dials, g) ∧ dials.map Dial.loop = loops ∧
      posesLeft input dials = poses input loops := by
  induction loops generalizing input with
  | nil => exact ⟨[], rfl, rfl, rfl⟩
  | cons loop loops ih =>
    rw [List.forall_mem_cons] at h
    obtain ⟨⟨hc, hn⟩, hloops⟩ := h
    obtain ⟨dials, hrun, hmap, hleft⟩ := ih hloops (loop.transformation.onPose input)
    refine ⟨⟨loop, 0, loop.transformation.onPose input⟩ :: dials, ?_, ?_, ?_⟩
    · rw [prime_cons, Transformation.run_apply_of_not_drawsColor hc]
      dsimp only
      rw [hrun]
    · rw [List.map_cons, hmap]
    · obtain ⟨n, hreps⟩ : ∃ n, loop.repetitions.toNat = n + 1 :=
        ⟨loop.repetitions.toNat - 1, by omega⟩
      rw [Loop.poses_cons, hreps, Loop.laps_succ]
      simp only [posesLeft, hmap, hleft, hreps, Nat.add_sub_cancel, Nat.sub_zero]

/-- A move comes to the next pose, and there is no next one just if this one was the last. -/
theorem run_advance_plain {dials : List (Dial M)} (h : ∀ dial ∈ dials, dial.loop.Plain)
    (pool : Pool) (input : Pose M) (g : Generator) :
    (∃ next, (advance pool dials).run g = (some next, g) ∧
      next.map Dial.loop = dials.map Dial.loop ∧
      posesLeft input dials = reached input dials :: posesLeft input next) ∨
    ((advance pool dials).run g = (none, g) ∧ posesLeft input dials = [reached input dials]) := by
  induction dials generalizing input with
  | nil => exact .inr ⟨rfl, rfl⟩
  | cons dial dials ih =>
    rw [List.forall_mem_cons] at h
    obtain ⟨hdial, hdials⟩ := h
    rw [advance_cons, reached_cons]
    rcases ih hdials dial.pose with ⟨next, hrun, hmap, hleft⟩ | ⟨hrun, hleft⟩
    · left
      refine ⟨dial :: next, by rw [hrun], by rw [List.map_cons, List.map_cons, hmap], ?_⟩
      simp only [posesLeft, hmap, hleft, List.cons_append]
    · rw [hrun]
      dsimp only
      by_cases hc : dial.count + 1 < dial.loop.repetitions.toNat
      · left
        have hloops : ∀ loop ∈ dials.map Dial.loop, loop.Plain := by
          simpa only [List.mem_map, forall_exists_index, and_imp, forall_apply_eq_imp_iff₂]
            using hdials
        obtain ⟨inner, hprime, hmap, hinner⟩ :=
          run_prime_plain hloops pool (dial.loop.transformation.onPose dial.pose) g
        refine ⟨⟨dial.loop, dial.count + 1, dial.loop.transformation.onPose dial.pose⟩ :: inner,
          ?_, ?_, ?_⟩
        · rw [if_pos hc, Transformation.run_apply_of_not_drawsColor hdial.1]
          dsimp only
          rw [hprime]
        · rw [List.map_cons, List.map_cons, hmap]
        · have hlaps : dial.loop.repetitions.toNat - 1 - dial.count =
              dial.loop.repetitions.toNat - 1 - (dial.count + 1) + 1 := by omega
          simp only [posesLeft, hleft, hmap, hinner]
          rw [hlaps, Loop.laps_succ]
          rfl
      · right
        have hlaps : dial.loop.repetitions.toNat - 1 - dial.count = 0 := by omega
        refine ⟨by rw [if_neg hc], ?_⟩
        rw [posesLeft, hleft, hlaps]
        rfl

end Odometer

end SceneGrammar
