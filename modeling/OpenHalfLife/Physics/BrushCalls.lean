import OpenHalfLife.Physics.PointQuery

/-! # Calls on attached brushes

Brushes are attached, posed, switched off and on again, and detached. Every run of calls keeps what a
trace reads in range. Switching a brush off and on again leaves the model as it would have been.
-/

namespace OpenHalfLife.Physics

open OpenHalfLife.Media (SanitizedError)
open OpenHalfLife.Result

set_option autoImplicit false

variable {K : Type} [Field K] [LinearOrder K]

inductive Call (K : Type)
  | attachBrush (bsp : Bsp K) (modelIndex : Nat) (origin : Vec3 K)
  | attachContentsBrush (bsp : Bsp K) (modelIndex : Nat) (origin : Vec3 K) (kind : ContentsKind)
  | setBrushOrigin (brush : Nat) (origin : Vec3 K)
  | setBrushPose (brush : Nat) (origin pivot axis : Vec3 K) (angleDeg : K)
  | setBrushSolid (brush : Nat) (solid : Bool)
  | detachBrush (brush : Nat)

def Call.switches (brush : Nat) : Call K → Bool
  | .setBrushSolid other _ => other = brush
  | _ => false

namespace CollisionModel

variable (model : CollisionModel K)

def attached (result : Except SanitizedError (Nat × CollisionModel K)) : CollisionModel K :=
  match result with
  | .ok (_, model) => model
  | .error _ => model

def perform : Call K → CollisionModel K
  | .attachBrush bsp modelIndex origin => model.attached (model.attachBrush bsp modelIndex origin)
  | .attachContentsBrush bsp modelIndex origin kind =>
    model.attached (model.attachContentsBrush bsp modelIndex origin kind)
  | .setBrushOrigin brush origin => model.setBrushOrigin brush origin
  | .setBrushPose brush origin pivot axis angleDeg => model.setBrushPose brush origin pivot axis angleDeg
  | .setBrushSolid brush solid => model.setBrushSolid brush solid
  | .detachBrush brush => model.detachBrush brush

def run (calls : List (Call K)) : CollisionModel K := calls.foldl perform model

variable {model}

/-! ### What a run keeps -/

omit [Field K] [LinearOrder K] in
theorem bare_inRange : model.HeadsInRange Heads.bare := fun hull => by
  have hEmpty : Heads.bare hull = -1 := rfl
  omega

omit [LinearOrder K] in
theorem brushPart_holds {bsp : Bsp K} {modelIndex : Nat} {origin : Vec3 K} {kind : BrushKind} {part : BrushPart K}
    (h : model.brushPart bsp modelIndex origin kind = .ok part) : model.Holds part ∧ part.suspended = none := by
  obtain ⟨rawModels, -, h⟩ := bind_eq_ok.mp h
  obtain ⟨rawLeaves, -, h⟩ := bind_eq_ok.mp h
  split at h
  · cases h
  · obtain ⟨heads, hHeads, h⟩ := bind_eq_ok.mp h
    cases h
    refine ⟨⟨fun hull => ?_, nofun⟩, rfl⟩
    cases hull with
    | point => exact checkHeads_lt hHeads .point
    | standing => exact checkHeads_lt hHeads .standing
    | large => exact checkHeads_lt hHeads .large
    | crouched => exact checkHeads_lt hHeads .crouched

omit [LinearOrder K] in
theorem attached_cases (model : CollisionModel K) (bsp : Bsp K) (modelIndex : Nat) (origin : Vec3 K)
    (kind : BrushKind) :
    model.attached (model.attachBrushKind bsp modelIndex origin kind) = model ∨
      ∃ part, model.brushPart bsp modelIndex origin kind = .ok part ∧
        model.attached (model.attachBrushKind bsp modelIndex origin kind) =
          { model with brushes := model.brushes ++ [part] } := by
  rw [attachBrushKind]
  split
  · exact .inl rfl
  · split
    · exact .inl rfl
    · cases hPart : model.brushPart bsp modelIndex origin kind with
      | error => exact .inl rfl
      | ok part => exact .inr ⟨part, rfl, rfl⟩

omit [Field K] [LinearOrder K] in
theorem WellFormed.append (h : model.WellFormed) {part : BrushPart K} (hPart : model.Holds part) :
    ({ model with brushes := model.brushes ++ [part] } : CollisionModel K).WellFormed := by
  refine ⟨h.nodes, h.heads, fun other hOther => ?_⟩
  rcases List.mem_append.mp hOther with hOld | hNew
  · exact ⟨(h.brushes other hOld).heads, (h.brushes other hOld).suspended⟩
  · cases List.mem_singleton.mp hNew
    exact ⟨hPart.heads, hPart.suspended⟩

omit [LinearOrder K] in
theorem WellFormed.attached (h : model.WellFormed) (bsp : Bsp K) (modelIndex : Nat) (origin : Vec3 K)
    (kind : BrushKind) : (model.attached (model.attachBrushKind bsp modelIndex origin kind)).WellFormed := by
  rcases attached_cases model bsp modelIndex origin kind with hSame | ⟨part, hPart, hNew⟩
  · rw [hSame]
    exact h
  · rw [hNew]
    exact h.append (brushPart_holds hPart).1

omit [Field K] [LinearOrder K] in
theorem WellFormed.modifyBrush (h : model.WellFormed) (brush : Nat) {change : BrushPart K → BrushPart K}
    (hChange : ∀ part, model.Holds part → model.Holds (change part)) : (model.modifyBrush brush change).WellFormed := by
  refine ⟨h.nodes, h.heads, fun part hPart => ?_⟩
  obtain ⟨i, hi⟩ := List.mem_iff_getElem?.mp hPart
  change (model.brushes.modify brush change)[i]? = some part at hi
  rw [List.getElem?_modify] at hi
  obtain ⟨was, hWas, rfl⟩ := Option.map_eq_some_iff.mp hi
  have hHeld := h.brushes was (List.mem_of_getElem? hWas)
  split
  · exact ⟨(hChange was hHeld).heads, (hChange was hHeld).suspended⟩
  · exact ⟨hHeld.heads, hHeld.suspended⟩

omit [Field K] [LinearOrder K] in
theorem Holds.setSolid {part : BrushPart K} (h : model.Holds part) (solid : Bool) : model.Holds (part.setSolid solid) := by
  cases solid with
  | true =>
    rw [BrushPart.setSolid, if_pos rfl]
    cases hSuspended : part.suspended with
    | none => exact h
    | some heads => exact ⟨(h.suspended heads hSuspended).1, nofun⟩
  | false =>
    rw [BrushPart.setSolid, if_neg Bool.false_ne_true]
    cases hSuspended : part.suspended with
    | some heads => exact h
    | none =>
      refine ⟨bare_inRange, fun heads hHeads => ?_⟩
      cases hHeads
      exact ⟨h.heads, rfl⟩

omit [LinearOrder K] in
theorem WellFormed.perform (h : model.WellFormed) (call : Call K) : (model.perform call).WellFormed := by
  cases call with
  | attachBrush bsp modelIndex origin => exact h.attached bsp modelIndex origin .solid
  | attachContentsBrush bsp modelIndex origin kind => exact h.attached bsp modelIndex origin (.contents kind)
  | setBrushOrigin brush origin => exact h.modifyBrush brush fun part hPart => ⟨hPart.heads, hPart.suspended⟩
  | setBrushPose brush => exact h.modifyBrush brush fun part hPart => ⟨hPart.heads, hPart.suspended⟩
  | setBrushSolid brush solid => exact h.modifyBrush brush fun part hPart => hPart.setSolid solid
  | detachBrush brush => exact h.modifyBrush brush fun part _ => ⟨bare_inRange, nofun⟩

omit [LinearOrder K] in
theorem WellFormed.run (h : model.WellFormed) (calls : List (Call K)) : (model.run calls).WellFormed := by
  induction calls generalizing model with
  | nil => exact h
  | cons call calls ih => exact ih (h.perform call)

/-! ### Switching off and on again -/

omit [Field K] [LinearOrder K] in
theorem modify_append_of_fixed {l : List (BrushPart K)} {part : BrushPart K} {change : BrushPart K → BrushPart K}
    (h : change part = part) (i : Nat) : (l ++ [part]).modify i change = l.modify i change ++ [part] := by
  induction l generalizing i with
  | nil =>
    cases i with
    | zero => rw [List.nil_append, List.modify_nil, List.modify_zero_cons, h, List.nil_append]
    | succ i => rw [List.nil_append, List.modify_nil, List.modify_succ_cons, List.modify_nil, List.nil_append]
  | cons first l ih =>
    cases i with
    | zero => rfl
    | succ i => rw [List.cons_append, List.modify_succ_cons, List.modify_succ_cons, ih, List.cons_append]

end CollisionModel

namespace BrushPart

variable (part : BrushPart K)

omit [Field K] [LinearOrder K] in
theorem setSolid_setSolid (solid : Bool) : (part.setSolid solid).setSolid true = part.setSolid true := by
  obtain ⟨heads, origin, pivot, axis, angleDeg, kind, mins, maxs, suspended⟩ := part
  cases solid <;> cases suspended <;> rfl

omit [Field K] [LinearOrder K] in
theorem setSolid_of_solid (h : part.suspended = none) : part.setSolid true = part := by
  rw [setSolid, if_pos rfl, h]

end BrushPart

namespace CollisionModel

variable {model : CollisionModel K}

omit [Field K] [LinearOrder K] in
theorem modifyBrush_comm {brush other : Nat} {change again : BrushPart K → BrushPart K}
    (h : ∀ part, change (again part) = again (change part)) :
    (model.modifyBrush brush change).modifyBrush other again = (model.modifyBrush other again).modifyBrush brush change := by
  have hBrushes : (model.brushes.modify brush change).modify other again =
      (model.brushes.modify other again).modify brush change := by
    by_cases hSame : brush = other
    · subst hSame
      rw [List.modify_modify_eq, List.modify_modify_eq]
      exact congrArg (model.brushes.modify brush) (funext fun part => (h part).symm)
    · exact List.modify_modify_ne change again model.brushes hSame
  exact congrArg (fun brushes => ({ model with brushes } : CollisionModel K)) hBrushes

omit [Field K] [LinearOrder K] in
theorem setBrushSolid_setBrushSolid (brush : Nat) (solid : Bool) :
    (model.setBrushSolid brush solid).setBrushSolid brush true = model.setBrushSolid brush true := by
  have hBrushes : (model.brushes.modify brush (BrushPart.setSolid solid)).modify brush (BrushPart.setSolid true) =
      model.brushes.modify brush (BrushPart.setSolid true) := by
    rw [List.modify_modify_eq]
    exact congrArg (model.brushes.modify brush) (funext fun part => part.setSolid_setSolid solid)
  exact congrArg (fun brushes => ({ model with brushes } : CollisionModel K)) hBrushes

omit [LinearOrder K] in
theorem attached_setBrushSolid (bsp : Bsp K) (modelIndex : Nat) (origin : Vec3 K) (kind : BrushKind) (brush : Nat) :
    (model.attached (model.attachBrushKind bsp modelIndex origin kind)).setBrushSolid brush true =
      (model.setBrushSolid brush true).attached
        ((model.setBrushSolid brush true).attachBrushKind bsp modelIndex origin kind) := by
  have hLength : (model.setBrushSolid brush true).brushes.length = model.brushes.length := List.length_modify _ _ _
  have hPart : (model.setBrushSolid brush true).brushPart bsp modelIndex origin kind =
      model.brushPart bsp modelIndex origin kind := rfl
  rw [attachBrushKind, attachBrushKind, hLength, hPart]
  split
  · rfl
  · split
    · rfl
    · cases hNew : model.brushPart bsp modelIndex origin kind with
      | error => rfl
      | ok part =>
        have hFixed := part.setSolid_of_solid (brushPart_holds hNew).2
        exact congrArg (fun brushes => ({ model with brushes } : CollisionModel K)) (modify_append_of_fixed hFixed brush)

omit [LinearOrder K] in
theorem perform_setBrushSolid {brush : Nat} {call : Call K} (h : call.switches brush = false) :
    (model.perform call).setBrushSolid brush true = (model.setBrushSolid brush true).perform call := by
  cases call with
  | attachBrush bsp modelIndex origin => exact attached_setBrushSolid bsp modelIndex origin .solid brush
  | attachContentsBrush bsp modelIndex origin kind =>
    exact attached_setBrushSolid bsp modelIndex origin (.contents kind) brush
  | setBrushOrigin other origin =>
    refine modifyBrush_comm fun part => ?_
    obtain ⟨heads, origin, pivot, axis, angleDeg, kind, mins, maxs, suspended⟩ := part
    cases suspended <;> rfl
  | setBrushPose other origin pivot axis angleDeg =>
    refine modifyBrush_comm fun part => ?_
    obtain ⟨heads, origin, pivot, axis, angleDeg, kind, mins, maxs, suspended⟩ := part
    cases suspended <;> rfl
  | setBrushSolid other solid =>
    have hOther : other ≠ brush := of_decide_eq_false h
    exact congrArg (fun brushes => ({ model with brushes } : CollisionModel K))
      (List.modify_modify_ne _ _ model.brushes hOther)
  | detachBrush other =>
    refine modifyBrush_comm fun part => ?_
    obtain ⟨heads, origin, pivot, axis, angleDeg, kind, mins, maxs, suspended⟩ := part
    cases suspended <;> rfl

omit [LinearOrder K] in
theorem run_setBrushSolid (calls : List (Call K)) (brush : Nat) :
    (model.run calls).setBrushSolid brush true =
      (model.setBrushSolid brush true).run (calls.filter fun call => !call.switches brush) := by
  induction calls generalizing model with
  | nil => rfl
  | cons call calls ih =>
    rw [run, List.foldl_cons, ← run, ih]
    cases hSwitches : call.switches brush with
    | true =>
      rw [List.filter_cons_of_neg (by rw [hSwitches]; decide)]
      cases call with
      | setBrushSolid other solid =>
        cases of_decide_eq_true hSwitches
        exact congrArg (run · _) (setBrushSolid_setBrushSolid brush solid)
      | _ => cases hSwitches
    | false =>
      rw [List.filter_cons_of_pos (by rw [hSwitches]; rfl), perform_setBrushSolid hSwitches]
      rfl

end CollisionModel

end OpenHalfLife.Physics
