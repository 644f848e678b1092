/-!
Why expansion ends: the turns left in each frame, the top frame first, go down in an order without
infinite descent. A call may put any number of turns on top, but takes one from its caller, and the
stack has a greatest height.
-/

namespace SceneGrammar

inductive Descends (height : Nat) : List Nat → List Nat → Prop
  | leave (turns : Nat) (below : List Nat) : Descends height below (turns :: below)
  | take {fewer turns : Nat} (below : List Nat) (h : fewer < turns) :
      Descends height (fewer :: below) (turns :: below)
  | call {fewer turns : Nat} (callee : Nat) (below : List Nat) (h : fewer < turns)
      (room : below.length + 1 < height) :
      Descends height (callee :: fewer :: below) (turns :: below)

namespace Descends

theorem acc_cons {height : Nat} (room : Nat) {below : List Nat}
    (hb : Acc (Descends height) below) (hr : height ≤ below.length + room) (turns : Nat) :
    Acc (Descends height) (turns :: below) := by
  induction room generalizing below turns with
  | zero =>
    induction turns using Nat.strongRecOn with
    | ind turns ih =>
      refine ⟨_, fun _ h => ?_⟩
      cases h with
      | leave => exact hb
      | take _ h => exact ih _ h
      | call callee _ h room => omega
  | succ room outer =>
    induction turns using Nat.strongRecOn with
    | ind turns ih =>
      refine ⟨_, fun _ h => ?_⟩
      cases h with
      | leave => exact hb
      | take _ h => exact ih _ h
      | call callee _ h _ => exact outer (ih _ h) (by simp only [List.length_cons]; omega) callee

theorem wellFounded (height : Nat) : WellFounded (Descends height) := by
  refine ⟨fun stack => ?_⟩
  induction stack with
  | nil => exact ⟨_, fun _ h => nomatch h⟩
  | cons turns below ih => exact acc_cons height ih (Nat.le_add_left _ _) turns

end Descends

end SceneGrammar
