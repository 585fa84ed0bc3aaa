import OpenHalfLife.Ai.ScriptSteps

/-! # Scripts hold and release their monsters in brackets

Between the passes the world may do anything but touch a marker or bring an
entity back. The marker of an actor is shared by the scripts bound to it.
-/

namespace OpenHalfLife.Ai

set_option autoImplicit false

variable {K : Type}

structure ScriptRecord (K : Type) where
  host : Host K
  script : ActiveScript K
  host' : Host K
  script' : ActiveScript K

namespace ScriptRecord

def turn (r : ScriptRecord K) : Turn := ⟨r.script.isActive, r.script'.isActive⟩

/-- The bracket of one step. The marker is taken off once where an activity ends
and nowhere else, an idle script touches no entity, and the target fires where
the action completes. -/
structure Bracketed (r : ScriptRecord K) : Prop where
  ends : r.turn.Ends → ∃ a, r.script'.actor = some a ∧ r.host'.removals = r.host.removals ++ [a] ∧
    (r.host'.live a = true → r.host'.held a = false)
  keeps : ¬ r.turn.Ends → r.host'.removals = r.host.removals
  idle : r.script.isActive = false → r.script'.isActive = false → r.host'.bodies = r.host.bodies
  completes : r.host'.scriptCompletions ≠ r.host.scriptCompletions → r.turn.Ends ∧
    r.host'.scriptCompletions = r.host.scriptCompletions + 1 ∧
    ∃ a, r.script'.actor = some a ∧ r.host'.fired = r.host.fired ++ Host.firesOf r.script a
  silent : r.host'.scriptCompletions = r.host.scriptCompletions → r.host'.fired = r.host.fired
  timedOut : r.host'.scriptTimeouts ≠ r.host.scriptTimeouts →
    r.host'.scriptCompletions = r.host.scriptCompletions

def fires (r : ScriptRecord K) : Nat := r.host'.fired.length - r.host.fired.length

def completed (r : ScriptRecord K) : Nat := r.host'.scriptCompletions - r.host.scriptCompletions

end ScriptRecord

/-- A pass of `update_scripts`: its steps in order, and the host it ends with. -/
structure ScriptPass (K : Type) where
  records : List (ScriptRecord K)
  host : Host K

namespace ScriptPass

def turns (p : ScriptPass K) (a : Entity) : List Turn :=
  p.records.filterMap fun r => if r.script'.actor = some a then some r.turn else none

/-- An actor in the world is marked exactly if one of its scripts is active. -/
def Balanced (p : ScriptPass K) : Prop :=
  ∀ a, p.host.live a = true →
    (p.host.held a = true ↔ ∃ r ∈ p.records, r.script'.actor = some a ∧ r.script'.isActive = true)

/-- A script lets go of an actor while one listed before it holds the actor, and
none listed after it does. -/
def EndsOver (p : ScriptPass K) : Prop := ∃ a, p.host.live a = true ∧ Turn.EndsOver (p.turns a)

end ScriptPass

structure Between (h h' : Host K) : Prop where
  known : h.known ≤ h'.known
  kept : ∀ e, h'.live e = true → e < h.known → h.live e = true ∧ h'.held e = h.held e
  fresh : ∀ e, h'.live e = true → h.known ≤ e → h'.held e = false

structure PassInput (K : Type) where
  between : Host K → Host K
  keeps : ∀ h, Between h (between h)
  dt : K

structure Scene (K : Type) where
  host : Host K
  scripts : List (ActiveScript K)

variable [Scalar K]

namespace Host

def updateScripts (dt : K) : List (ActiveScript K) → Host K → ScriptPass K
  | [], h => ⟨[], h⟩
  | s :: rest, h =>
    let (h', s') := h.updateOneScript s dt
    let p := updateScripts dt rest h'
    ⟨⟨h, s, h', s'⟩ :: p.records, p.host⟩

end Host

namespace Scene

structure Dormant (scene : Scene K) : Prop where
  dormant : ∀ s ∈ scene.scripts, s.runner.phase = .dormant ∧ s.wasActive = false
  bound : ∀ s ∈ scene.scripts, ∀ e, s.actor = some e → e < scene.host.known
  free : ∀ e, scene.host.live e = true → scene.host.held e = false

def pass (scene : Scene K) (input : PassInput K) : ScriptPass K :=
  Host.updateScripts input.dt scene.scripts (input.between scene.host)

def run : List (PassInput K) → Scene K → List (ScriptPass K)
  | [], _ => []
  | input :: inputs, scene =>
    let p := scene.pass input
    p :: run inputs ⟨p.host, p.records.map ScriptRecord.script'⟩

end Scene

/-! ## One pass -/

structure ActiveScript.Sound (s : ActiveScript K) : Prop where
  wasActive : s.wasActive = s.isActive
  unbound : s.actor = none → s.isActive = false

namespace Host

variable {scripts : List (ActiveScript K)} {h : Host K} {dt : K} {r : ScriptRecord K}

theorem updateScripts_cons (dt : K) (s : ActiveScript K) (rest : List (ActiveScript K)) (h : Host K) :
    updateScripts dt (s :: rest) h =
      ⟨⟨h, s, (h.updateOneScript s dt).1, (h.updateOneScript s dt).2⟩ ::
        (updateScripts dt rest (h.updateOneScript s dt).1).records,
        (updateScripts dt rest (h.updateOneScript s dt).1).host⟩ := rfl

theorem updateScripts_script (dt : K) (scripts : List (ActiveScript K)) (h : Host K) :
    (updateScripts dt scripts h).records.map ScriptRecord.script = scripts := by
  induction scripts generalizing h with
  | nil => rfl
  | cons s rest ih => simp [updateScripts, ih]

structure SoundRecord (r : ScriptRecord K) : Prop where
  stepped : Stepped r.host r.script r.host' r.script'
  sound : r.script'.Sound
  before : r.script.Sound
  keeps : ∀ e, r.script.actor = some e → r.script'.actor = some e
  finds : ∀ e, r.script'.actor = some e → r.script.actor = some e ∨ r.host.live e = true

theorem soundRecord_of_update (h : Host K) {s : ActiveScript K} (dt : K) (hSound : s.Sound) :
    SoundRecord ⟨h, s, (h.updateOneScript s dt).1, (h.updateOneScript s dt).2⟩ := by
  obtain ⟨hStepped, hKeeps, hFinds, hIdle⟩ := updateOneScript_spec h s dt hSound.wasActive hSound.unbound
  exact ⟨hStepped, ⟨hStepped.wasActive, hIdle⟩, hSound, hKeeps, hFinds⟩

variable (h dt) in
theorem updateScripts_sound (hSound : ∀ s ∈ scripts, s.Sound) :
    (∀ r ∈ (updateScripts dt scripts h).records, SoundRecord r ∧ ∀ e, r.host.live e = true → h.live e = true) ∧
      (∀ e, (updateScripts dt scripts h).host.live e = true → h.live e = true) ∧
      (updateScripts dt scripts h).host.known = h.known := by
  induction scripts generalizing h with
  | nil => exact ⟨by simp [updateScripts], fun _ hLive => hLive, rfl⟩
  | cons s rest ih =>
    have hRecord := soundRecord_of_update h dt (hSound s (by simp))
    obtain ⟨hRecords, hLive, hKnown⟩ := ih (h := (h.updateOneScript s dt).1)
      fun t hMem => hSound t (by simp [hMem])
    refine ⟨?_, fun e hEnd => hRecord.stepped.live e (hLive e hEnd), hKnown.trans hRecord.stepped.known⟩
    intro r hMem
    rcases List.mem_cons.mp hMem with rfl | hMem
    · exact ⟨hRecord, fun _ h => h⟩
    · exact ⟨(hRecords r hMem).1, fun e hNow => hRecord.stepped.live e ((hRecords r hMem).2 e hNow)⟩

theorem updateScripts_held (hSound : ∀ s ∈ scripts, s.Sound) {a : Entity}
    (hLive : (updateScripts dt scripts h).host.live a = true) :
    (updateScripts dt scripts h).host.held a =
      Turn.settle (h.held a) ((updateScripts dt scripts h).turns a) := by
  induction scripts generalizing h with
  | nil => rfl
  | cons s rest ih =>
    have hRecord := soundRecord_of_update h dt (hSound s (by simp))
    have hRest : ∀ t ∈ rest, t.Sound := fun t hMem => hSound t (by simp [hMem])
    rw [updateScripts_cons] at hLive ⊢
    have hStill := (updateScripts_sound (h.updateOneScript s dt).1 dt hRest).2.1 a hLive
    have hHeld := hRecord.stepped.held a hStill
    rw [ih (h := (h.updateOneScript s dt).1) hRest hLive, ScriptPass.turns, ScriptPass.turns,
      List.filterMap_cons]
    dsimp only at hHeld ⊢
    by_cases hActor : (h.updateOneScript s dt).2.actor = some a
    · rw [if_pos hActor] at hHeld ⊢
      rw [Turn.settle_cons, hHeld]
      rfl
    · rw [if_neg hActor] at hHeld ⊢
      rw [hHeld]

end Host

namespace ScriptPass

omit [Scalar K] in
theorem any_turns (p : ScriptPass K) (a : Entity) (f : Turn → Bool) :
    (p.turns a).any f = p.records.any fun r => decide (r.script'.actor = some a) && f r.turn := by
  rw [turns, List.any_filterMap]
  congr 1
  funext r
  by_cases hActor : r.script'.actor = some a <;> simp [hActor]

end ScriptPass

namespace Scene

structure Sound (scene : Scene K) : Prop where
  scripts : ∀ s ∈ scene.scripts, s.Sound
  bound : ∀ s ∈ scene.scripts, ∀ e, s.actor = some e → e < scene.host.known

/-- Every actor in the world is marked exactly if one of its scripts is active. -/
def Marked (scene : Scene K) : Prop :=
  ∀ e, scene.host.live e = true →
    scene.host.held e = scene.scripts.any fun s => decide (s.actor = some e) && s.isActive

variable {scene : Scene K} {input : PassInput K}

def after (scene : Scene K) (input : PassInput K) : Scene K :=
  ⟨(scene.pass input).host, (scene.pass input).records.map ScriptRecord.script'⟩

omit [Scalar K] in
theorem Dormant.idle (h : scene.Dormant) {s : ActiveScript K} (hMem : s ∈ scene.scripts) : s.isActive = false := by
  rw [ActiveScript.isActive, (h.dormant s hMem).1]
  rfl

omit [Scalar K] in
theorem Dormant.sound (h : scene.Dormant) : scene.Sound where
  scripts s hMem := ⟨(h.dormant s hMem).2.trans (h.idle hMem).symm, fun _ => h.idle hMem⟩
  bound := h.bound

omit [Scalar K] in
theorem Dormant.marked (h : scene.Dormant) : scene.Marked := by
  intro e hLive
  rw [h.free e hLive]
  symm
  rw [List.any_eq_false]
  intro s hMem
  simp [h.idle hMem]

theorem pass_record (h : scene.Sound) (input : PassInput K) {r : ScriptRecord K}
    (hMem : r ∈ (scene.pass input).records) :
    Host.SoundRecord r ∧ ∀ e, r.host.live e = true → (input.between scene.host).live e = true :=
  (Host.updateScripts_sound _ _ h.scripts).1 r hMem

theorem pass_live (h : scene.Sound) (input : PassInput K) {e : Entity}
    (hLive : (scene.pass input).host.live e = true) : (input.between scene.host).live e = true :=
  (Host.updateScripts_sound _ _ h.scripts).2.1 e hLive

theorem pass_held (h : scene.Sound) (input : PassInput K) {e : Entity}
    (hLive : (scene.pass input).host.live e = true) : (scene.pass input).host.held e =
      Turn.settle ((input.between scene.host).held e) ((scene.pass input).turns e) :=
  Host.updateScripts_held h.scripts hLive

theorem pass_known (h : scene.Sound) (input : PassInput K) :
    (scene.pass input).host.known = (input.between scene.host).known :=
  (Host.updateScripts_sound _ _ h.scripts).2.2

theorem pass_script (scene : Scene K) (input : PassInput K) :
    (scene.pass input).records.map ScriptRecord.script = scene.scripts :=
  Host.updateScripts_script _ _ _

theorem record_script_mem (input : PassInput K) {r : ScriptRecord K}
    (hMem : r ∈ (scene.pass input).records) : r.script ∈ scene.scripts := by
  rw [← scene.pass_script input]
  exact List.mem_map_of_mem hMem

theorem Sound.after (h : scene.Sound) (input : PassInput K) : (scene.after input).Sound where
  scripts s hMem := by
    obtain ⟨r, hRecord, rfl⟩ := List.mem_map.mp hMem
    exact (pass_record h input hRecord).1.sound
  bound s hMem e hActor := by
    obtain ⟨r, hRecord, rfl⟩ := List.mem_map.mp hMem
    obtain ⟨hSound, hEarlier⟩ := pass_record h input hRecord
    have hBetween := input.keeps scene.host
    show e < (scene.pass input).host.known
    rw [pass_known h input]
    rcases hSound.finds e hActor with hBound | hLive
    · exact Nat.lt_of_lt_of_le (h.bound _ (record_script_mem input hRecord) e hBound) hBetween.known
    · exact (input.between scene.host).born e (hEarlier e hLive)

omit [Scalar K] in
theorem Marked.between (h : scene.Marked) (hSound : scene.Sound) (input : PassInput K) {e : Entity}
    (hLive : (input.between scene.host).live e = true) :
    (input.between scene.host).held e = scene.scripts.any fun s => decide (s.actor = some e) && s.isActive := by
  have hBetween := input.keeps scene.host
  rcases Nat.lt_or_ge e scene.host.known with hOld | hNew
  · obtain ⟨hBefore, hHeld⟩ := hBetween.kept e hLive hOld
    rw [hHeld, h e hBefore]
  · rw [hBetween.fresh e hLive hNew]
    symm
    rw [List.any_eq_false]
    intro s hMem hActive
    have hActor : s.actor = some e := by simp at hActive; exact hActive.1
    exact absurd (hSound.bound s hMem e hActor) (Nat.not_lt.mpr hNew)

theorem Sound.any_before (h : scene.Sound) (input : PassInput K) (e : Entity) :
    (scene.scripts.any fun s => decide (s.actor = some e) && s.isActive) =
      ((scene.pass input).turns e).any Turn.before := by
  rw [ScriptPass.any_turns, ← scene.pass_script input, List.any_map, Bool.eq_iff_iff, List.any_eq_true,
    List.any_eq_true]
  refine exists_congr fun r => and_congr_right fun hMem => ?_
  obtain ⟨hSound, -⟩ := pass_record h input hMem
  simp only [Function.comp_apply, Bool.and_eq_true, decide_eq_true_eq, ScriptRecord.turn]
  refine and_congr_left fun hActive => ⟨hSound.keeps e, fun hNow => ?_⟩
  cases hActor : r.script.actor with
  | none => rw [hSound.before.unbound hActor] at hActive; cases hActive
  | some d =>
    rw [hSound.keeps d hActor] at hNow
    exact hNow

theorem Sound.balanced_iff (h : scene.Sound) (hMarked : scene.Marked) (input : PassInput K) :
    (scene.pass input).Balanced ↔ ¬ (scene.pass input).EndsOver := by
  have hActor : ∀ a, (scene.pass input).host.live a = true →
      (((scene.pass input).host.held a = true ↔ ∃ r ∈ (scene.pass input).records,
        r.script'.actor = some a ∧ r.script'.isActive = true) ↔
        ¬ Turn.EndsOver ((scene.pass input).turns a)) := by
    intro a hLive
    have hStart := (hMarked.between h input (pass_live h input hLive)).trans (h.any_before input a)
    have hAny : ((scene.pass input).turns a).any Turn.after = true ↔ ∃ r ∈ (scene.pass input).records,
        r.script'.actor = some a ∧ r.script'.isActive = true := by
      rw [ScriptPass.any_turns]
      simp [ScriptRecord.turn]
    rw [← Turn.settle_iff hStart, ← pass_held h input hLive, ← hAny]
    exact Bool.eq_iff_iff.symm
  rw [ScriptPass.EndsOver, not_exists]
  exact forall_congr' fun a => by rw [not_and]; exact forall_congr' fun hLive => hActor a hLive

theorem marked_iff (input : PassInput K) :
    (scene.after input).Marked ↔ (scene.pass input).Balanced := by
  refine forall_congr' fun a => forall_congr' fun _ => ?_
  rw [Bool.eq_iff_iff]
  refine iff_congr Iff.rfl ?_
  simp [Scene.after]

/-! ## Runs -/

theorem run_cons (input : PassInput K) (inputs : List (PassInput K)) (scene : Scene K) :
    run (input :: inputs) scene = scene.pass input :: run inputs (scene.after input) := rfl

theorem run_balanced_iff (inputs : List (PassInput K)) (h : scene.Sound) (hMarked : scene.Marked) :
    (∀ p ∈ run inputs scene, p.Balanced) ↔ ∀ p ∈ run inputs scene, ¬ p.EndsOver := by
  induction inputs generalizing scene with
  | nil => simp [run]
  | cons input inputs ih =>
    rw [run_cons, List.forall_mem_cons, List.forall_mem_cons, ← h.balanced_iff hMarked input]
    refine and_congr_right fun hBalanced => ?_
    exact ih (h.after input) ((marked_iff input).mpr hBalanced)

end Scene

omit [Scalar K] in
theorem Host.SoundRecord.bracketed {r : ScriptRecord K} (h : SoundRecord r) : r.Bracketed where
  ends hEnds := by
    cases hActor : r.script.actor with
    | none =>
      have hIdle := h.before.unbound hActor
      rw [show r.script.isActive = true from hEnds.1] at hIdle
      cases hIdle
    | some a =>
      have hActor := h.keeps a hActor
      refine ⟨a, hActor, ?_, fun hLive => ?_⟩
      · rw [h.stepped.removals, hActor]
        exact congrArg _ (if_pos hEnds)
      · rw [h.stepped.held a hLive, if_pos hActor]
        exact Turn.mark_ends _ hEnds
  keeps hStays := by
    rw [h.stepped.removals]
    exact (congrArg _ (if_neg hStays)).trans (List.append_nil _)
  idle := h.stepped.untouched
  completes hDone := by
    obtain ⟨hMore, hEnds⟩ := h.stepped.completions.resolve_left hDone
    cases hActor : r.script.actor with
    | none =>
      have hIdle := h.before.unbound hActor
      rw [hEnds.1] at hIdle
      cases hIdle
    | some a =>
      have hActor := h.keeps a hActor
      refine ⟨hEnds, hMore, a, hActor, ?_⟩
      rw [h.stepped.fired, if_neg hDone, hActor]
      simp
  silent hSame := by
    rw [h.stepped.fired, if_pos hSame, List.append_nil]
  timedOut := h.stepped.timeouts

omit [Scalar K] in
theorem ScriptRecord.Bracketed.fires_eq {r : ScriptRecord K} (h : r.Bracketed)
    (hTarget : r.script.runner.script.target ≠ "") : r.fires = r.completed := by
  by_cases hSame : r.host'.scriptCompletions = r.host.scriptCompletions
  · rw [fires, completed, h.silent hSame, hSame, Nat.sub_self, Nat.sub_self]
  · obtain ⟨-, hMore, a, -, hFired⟩ := h.completes hSame
    rw [fires, completed, hFired, hMore, Host.firesOf, if_neg (by simpa using hTarget)]
    simp

def total (f : ScriptRecord K → Nat) (place : Nat) (passes : List (ScriptPass K)) : Nat :=
  (passes.map fun p => (p.records[place]?).elim 0 f).sum

namespace Scene

variable {scene : Scene K}

theorem run_bracketed (inputs : List (PassInput K)) (h : scene.Sound) :
    ∀ p ∈ run inputs scene, ∀ r ∈ p.records, r.Bracketed := by
  induction inputs generalizing scene with
  | nil => simp [run]
  | cons input inputs ih =>
    rw [run_cons, List.forall_mem_cons]
    exact ⟨fun r hMem => (pass_record h input hMem).1.bracketed, ih (h.after input)⟩

theorem run_fires (inputs : List (PassInput K)) (h : scene.Sound) {place : Nat} {s : ActiveScript K}
    (hScript : scene.scripts[place]? = some s) (hTarget : s.runner.script.target ≠ "") :
    total ScriptRecord.fires place (run inputs scene) = total ScriptRecord.completed place (run inputs scene) := by
  induction inputs generalizing scene s with
  | nil => rfl
  | cons input inputs ih =>
    have hPlace := hScript
    rw [← scene.pass_script input, List.getElem?_map, Option.map_eq_some_iff] at hPlace
    obtain ⟨r, hRecord, rfl⟩ := hPlace
    have hSound := (pass_record h input (List.mem_of_getElem? hRecord)).1
    have hRest := ih (h.after input) (s := r.script')
      (by rw [after, List.getElem?_map, hRecord, Option.map_some]) (by rw [hSound.stepped.script]; exact hTarget)
    rw [run_cons, total, total, List.map_cons, List.map_cons, List.sum_cons, List.sum_cons, hRecord]
    exact congrArg₂ (· + ·) (hSound.bracketed.fires_eq hTarget) hRest

/-- The brackets of all scripts hold in every run, the shared markers among them
exactly as long as no script lets go of an actor over the head of another. -/
theorem brackets_iff (h : scene.Dormant) (inputs : List (PassInput K)) :
    ((∀ p ∈ run inputs scene, p.Balanced ∧ ∀ r ∈ p.records, r.Bracketed) ∧
      ∀ place s, scene.scripts[place]? = some s → s.runner.script.target ≠ "" →
        total ScriptRecord.fires place (run inputs scene) =
          total ScriptRecord.completed place (run inputs scene)) ↔
      ∀ p ∈ run inputs scene, ¬ p.EndsOver := by
  rw [← run_balanced_iff inputs h.sound h.marked]
  constructor
  · exact fun hAll p hMem => (hAll.1 p hMem).1
  · intro hBalanced
    exact ⟨fun p hMem => ⟨hBalanced p hMem, run_bracketed inputs h.sound p hMem⟩,
      fun place s hScript hTarget => run_fires inputs h.sound hScript hTarget⟩

/-! One monster and two scripts that name it: the first puts it on its
mark, the second plays nothing, and is done while the first still holds. -/

def noChange (dt : K) : PassInput K where
  between h := h
  keeps h := ⟨Nat.le_refl _, fun _ hLive _ => ⟨hLive, rfl⟩, fun e hLive hNew =>
    absurd (h.born e hLive) (Nat.not_lt.mpr hNew)⟩
  dt := dt

def guardBody : Body Int where
  className := some "monster_guard"
  actor := some ⟨⟨0, 0, 0⟩, 0, true⟩
  transform := none
  monsterAi := none
  studioAnim := none
  hullLift := none
  corpse := none
  scriptHold := false

def guardHost : Host Int where
  bodies e := if e = 0 then some guardBody else none
  known := 3
  born e hLive := by
    by_cases he : e = 0
    · simp [he]
    · simp [he] at hLive
  activations e := if e = 0 then none else some 1
  names _ := [0]
  studioModels := []
  spawnGeneration := 0
  scriptStarts := 0
  scriptCompletions := 0
  scriptTimeouts := 0
  fired := []
  removals := []

def guardScript (moveTo : MoveTo) : ScriptDef Int where
  targetMonster := "guard"
  play := ""
  idle := ""
  radius := 0
  repeatRate := 0
  moveTo := moveTo
  target := "door"
  delay := 0
  killTarget := ""
  spawnflags := 0
  origin := ⟨1000, 0, 0⟩
  yaw := 0
  aiScript := false

def attached (entity : Entity) (script : ScriptDef K) : ActiveScript K where
  entity := entity
  runner := .new script
  actor := none
  searchedGeneration := none
  pendingTrigger := false
  wasActive := false
  played := 0
  playOrigin := Vec3.zero

def guardScene (moves : List MoveTo) : Scene Int where
  host := guardHost
  scripts := moves.mapIdx fun i moveTo => attached (i + 1) (guardScript moveTo)

theorem guardScene_dormant (moves : List MoveTo) : (guardScene moves).Dormant where
  dormant s hMem := by
    obtain ⟨i, hi, rfl⟩ := List.mem_mapIdx.mp hMem
    exact ⟨rfl, rfl⟩
  bound s hMem e hActor := by
    obtain ⟨i, hi, rfl⟩ := List.mem_mapIdx.mp hMem
    cases hActor
  free e _ := by
    by_cases he : e = 0 <;> simp [guardScene, guardHost, Host.held, he, guardBody]

theorem guardScene_brackets (moveTo : MoveTo) :
    ∀ p ∈ run [noChange 1, noChange 1] (guardScene [moveTo]), ¬ p.EndsOver := by
  have hSingle : ∀ p ∈ run [noChange 1, noChange 1] (guardScene [moveTo]), p.records.length ≤ 1 := by
    simp [run, pass, guardScene, Host.updateScripts]
  rintro p hMem ⟨a, -, hOver⟩
  refine Turn.not_endsOver_of_length ?_ hOver
  exact (List.length_filterMap_le _ _).trans (hSingle p hMem)

theorem brackets_of_one_guard :
    (∀ p ∈ run [noChange 1, noChange 1] (guardScene [.no]), p.Balanced ∧ ∀ r ∈ p.records, r.Bracketed) ∧
      ∀ place s, (guardScene [.no]).scripts[place]? = some s → s.runner.script.target ≠ "" →
        total ScriptRecord.fires place (run [noChange 1, noChange 1] (guardScene [.no])) =
          total ScriptRecord.completed place (run [noChange 1, noChange 1] (guardScene [.no])) :=
  (brackets_iff (guardScene_dormant [.no]) [noChange 1, noChange 1]).mpr (guardScene_brackets .no)

/-- The second script takes the marker off while the first is active. -/
theorem guardScene_not_balanced :
    (guardScene [.instantaneous, .no]).Dormant ∧
      ¬ ∀ p ∈ run [noChange 1, noChange 1] (guardScene [.instantaneous, .no]), p.Balanced := by
  refine ⟨guardScene_dormant _, fun hBalanced => ?_⟩
  have hSecond := hBalanced (((guardScene [.instantaneous, .no]).after (noChange 1)).pass (noChange 1))
    (List.mem_cons_of_mem _ (List.mem_singleton_self _)) 0 (by decide +kernel)
  have hFree : (((guardScene [.instantaneous, .no]).after (noChange 1)).pass (noChange 1)).host.held 0 = false := by
    decide +kernel
  have hActive : (((guardScene [.instantaneous, .no]).after (noChange 1)).pass (noChange 1)).records.any
      (fun r => decide (r.script'.actor = some 0) && r.script'.isActive) = true := by
    decide +kernel
  obtain ⟨r, hMem, hHolds⟩ := List.any_eq_true.mp hActive
  rw [Bool.and_eq_true, decide_eq_true_eq] at hHolds
  rw [hSecond.mpr ⟨r, hMem, hHolds⟩] at hFree
  cases hFree

end Scene

end OpenHalfLife.Ai
