import Mathlib

/-!
# Triples and runs
-/

namespace SecondMind

open Std.Do

/-- What a triple says of a run. -/
theorem run_of_triple {W ε α : Type} {m : ExceptT ε (StateM W) α} {P : W → Prop}
    {Q : α → W → Prop} {E : ε → W → Prop}
    (h : ⦃fun w => ⌜P w⌝⦄ m ⦃post⟨fun a w => ⌜Q a w⌝, fun e w => ⌜E e w⌝⟩⦄) {w : W} (hw : P w) :
    match m.run.run w with
    | (.ok a, w') => Q a w'
    | (.error e, w') => E e w' := by
  refine StateM.of_wp_run_eq (rfl : m.run.run w = _) (fun x => match x with
    | (.ok a, w') => Q a w'
    | (.error e, w') => E e w') ?_
  have hrun := h w hw
  simp only [WP.wp, PredTrans.apply_pushExcept] at hrun
  refine SPred.entails.trans (fun _ => hrun) ((wp m.run).mono _ _ ⟨fun x => ?_, trivial⟩ w)
  cases x with
  | ok a => exact fun w' => .rfl
  | error e => exact fun w' => .rfl

end SecondMind
