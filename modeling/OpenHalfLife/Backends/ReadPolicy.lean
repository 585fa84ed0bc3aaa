import OpenHalfLife.Backends.Dispatcher
import OpenHalfLife.Protocol.MessageCodec
import OpenHalfLife.Worker.Service

/-! # The reads the dispatcher asks for

Whatever the decoders return, every read stays inside the source and under the
window capacity. The capacity has a floor of its own, so a smaller negotiated
ceiling holds only for a source that is smaller still.
-/

namespace OpenHalfLife.Backends

open Machine Wise Protocol Worker

set_option autoImplicit false

variable {σ α : Type} {size capacity : Nat}

structure PendingRead.InBounds (size capacity : Nat) (read : PendingRead) : Prop where
  pos : 0 < read.length
  le_capacity : read.length ≤ capacity
  in_source : read.offset + read.length ≤ size

namespace WindowSource

/-- A window of the given source and capacity that asks for reads in bounds only. -/
structure Bounded (size capacity : Nat) (window : WindowSource) : Prop where
  size_eq : window.sourceSize = size
  capacity_eq : window.capacity = capacity
  pending : ∀ read, window.pending = some read → read.InBounds size capacity

structure Capacity (capacity : Nat) : Prop where
  pos : 0 < capacity
  lt : capacity < 2 ^ 32

theorem Bounded.arm {window : WindowSource} {offset : Nat} (h : window.Bounded size capacity)
    (hCapacity : Capacity capacity) (hOffset : offset < window.sourceSize) :
    (window.arm offset).Bounded size capacity := by
  refine ⟨h.size_eq, h.capacity_eq, ?_⟩
  rintro read hRead
  cases hRead
  have hPos := hCapacity.pos
  have hLt := hCapacity.lt
  have hSize := h.size_eq
  have hWidth := h.capacity_eq
  constructor <;> simp only [clampU32] <;> omega

theorem Bounded.takePending {window : WindowSource} (h : window.Bounded size capacity) :
    window.takePending.2.Bounded size capacity :=
  ⟨h.size_eq, h.capacity_eq, fun _ hNone => nomatch hNone⟩

theorem Bounded.deliver {window : WindowSource} (h : window.Bounded size capacity) (offset : Nat)
    (data : List UInt8) : (window.deliver offset data).2.Bounded size capacity := by
  unfold WindowSource.deliver
  split
  · exact h
  · exact ⟨h.size_eq, h.capacity_eq, h.pending⟩

theorem preserves_ensureAt (hCapacity : Capacity capacity) (offset : Nat) :
    Preserves (Bounded size capacity) (ensureAt offset) := by
  intro window h
  simp only [ensureAt, miss, ensures_bind, ensures_get, ensures_ite, ensures_pure, ensures_modify,
    assertOrPanic, ensures_throw]
  refine ⟨fun _ => h, fun _ => ⟨fun _ => h, fun hOffset => ⟨fun _ => ?_, fun _ => h⟩⟩⟩
  exact h.arm hCapacity (by omega)

theorem preserves_read (hCapacity : Capacity capacity) (offset room : Nat) :
    Preserves (Bounded size capacity) (WindowSource.read offset room) := by
  intro window h
  simp only [WindowSource.read, copyOut, miss, ensures_bind, ensures_get, ensures_ite, ensures_pure,
    ensures_modify, assertOrPanic, ensures_throw]
  refine ⟨fun _ => h, fun hAvailable => ⟨fun _ => ⟨fun _ => ?_, fun _ => h⟩, fun _ => ⟨fun _ => h, fun _ => h⟩⟩⟩
  exact h.arm hCapacity (by omega)

theorem preserves_onPinned (scan : WindowSource → Except (Stop WiseError) α) :
    Preserves (Bounded size capacity) (WiseBackend.onPinned scan) := by
  have hPin (window : WindowSource) (h : window.Bounded size capacity) : window.pin.Bounded size capacity :=
    ⟨h.size_eq, h.capacity_eq, h.pending⟩
  have hUnpin (window : WindowSource) (h : window.Bounded size capacity) :
      window.unpin.Bounded size capacity :=
    ⟨h.size_eq, h.capacity_eq, h.pending⟩
  apply (preserves_modify hPin).bind
  intro _
  apply preserves_get.bind
  intro window
  apply (preserves_modify hUnpin).bind
  intro _
  exact preserves_ofExcept _ _

end WindowSource

namespace WiseBackend

def Bounded (size capacity : Nat) (s : WiseBackend σ × WindowSource) : Prop :=
  s.2.Bounded size capacity

theorem preserves_onWindow {m : Machine (Stop WiseError) WindowSource α}
    (h : Preserves (WindowSource.Bounded size capacity) m) :
    Preserves (Bounded (σ := σ) size capacity) (onWindow m) :=
  h.zoom (fun _ hs => hs) fun _ _ _ ht => ht

theorem preserves_onReading {m : Machine (Stop WiseError) (StreamReader σ × WindowSource) α}
    (h : Preserves (fun s => s.2.Bounded size capacity) m) :
    Preserves (Bounded (σ := σ) size capacity) (onReading m) :=
  h.zoom (fun _ hs => hs) fun _ _ _ ht => ht

theorem preserves_setStage (stage : Stage) :
    Preserves (Bounded (σ := σ) size capacity) (setStage stage) :=
  preserves_modify fun _ h => h

theorem preserves_accept (walk : Walk) (metrics : StreamMetrics) :
    Preserves (Bounded (σ := σ) size capacity) (accept walk metrics) := by
  apply preserves_get.bind
  rintro ⟨backend, _⟩
  apply (preserves_rejectIf _ _).bind
  intro _
  apply (preserves_rejectIf _ _).bind
  intro _
  refine Preserves.bind (preserves_modify ?_) fun _ => ?_
  · exact fun _ h => h
  apply (preserves_rejectIf _ _).bind
  intro _
  refine Preserves.bind ?_ fun _ => preserves_pure _
  unfold StreamMetrics.nextOffset addOrPanic
  exact ((preserves_throw _).ite (preserves_pure _)).bind
    fun _ => (preserves_throw _).ite (preserves_pure _)

theorem preserves_finishAttempts (walk : Walk) :
    Preserves (Bounded (σ := σ) size capacity) (finishAttempts walk) := by
  unfold finishAttempts
  split
  · apply (preserves_accept _ _).bind
    intro walk
    exact (preserves_setStage _).bind fun _ => preserves_pure _
  · exact preserves_throw _
  · exact preserves_throw _

theorem preserves_nextAttempt (walk : Walk) :
    Preserves (Bounded (σ := σ) size capacity) (nextAttempt walk) := by
  apply preserves_get.bind
  rintro ⟨backend, _⟩
  apply Preserves.ite
  · exact (preserves_setStage _).bind fun _ => preserves_pure _
  · exact preserves_finishAttempts walk

theorem preserves_concludeAttempt (walk : Walk) (result : Except (Stop WiseError) StreamMetrics) :
    Preserves (Bounded (σ := σ) size capacity) (concludeAttempt walk result) := by
  rcases result with (e | _ | _) | metrics
  · apply Preserves.ite
    · exact (preserves_setStage _).bind fun _ => preserves_pure _
    · exact (preserves_throw _).ite (preserves_nextAttempt _)
  · exact preserves_throw _
  · exact preserves_throw _
  · apply Preserves.ite
    · apply (preserves_accept _ _).bind
      intro walk
      exact (preserves_setStage _).bind fun _ => preserves_pure _
    · exact preserves_nextAttempt _

theorem preserves_restart (inflater : Transducer σ) (offset : Nat) :
    Preserves (Bounded size capacity)
      (onReading (modify fun r : StreamReader σ × WindowSource => (r.1.restart inflater offset, r.2))) :=
  preserves_onReading (preserves_modify fun _ h => h)

theorem preserves_advanceWalk (hCapacity : WindowSource.Capacity capacity) (inflater : Transducer σ)
    (walk : Walk) : Preserves (Bounded size capacity) (advanceWalk inflater walk) := by
  apply preserves_get.bind
  rintro ⟨backend, _⟩
  apply Preserves.ite
  · exact (preserves_setStage _).bind fun _ => preserves_pure _
  apply (preserves_rejectIf _ _).bind
  intro _
  apply (preserves_finishAttempts _).ite
  refine Preserves.bind ?_ fun walk => ?_
  · exact (preserves_pure _).ite ((preserves_restart _ _).bind fun _ => preserves_pure _)
  · apply (preserves_attempt (preserves_onReading (preserves_driveAttempt _ (WindowSource.preserves_read hCapacity)))).bind
    exact preserves_concludeAttempt walk

theorem preserves_scriptTurn (hCapacity : WindowSource.Capacity capacity) (inflater : Transducer σ)
    (ceiling : Nat) :
    Preserves (fun s => s.1.2.Bounded size capacity) (scriptTurn inflater ceiling) := by
  apply preserves_get.bind
  rintro ⟨⟨reader, _⟩, _⟩
  apply (preserves_pure _).ite
  refine Preserves.bind ?_ fun written => ?_
  · exact (StreamReader.preserves_read (WindowSource.preserves_read hCapacity) _ _).zoom
      (fun _ hs => hs) fun _ _ _ ht => ht
  apply preserves_get.bind
  rintro ⟨⟨reader, _⟩, bytes⟩
  apply (preserves_rejectIf _ _).bind
  intro _
  apply (preserves_rejectIf _ _).bind
  intro _
  refine Preserves.bind (preserves_modify ?_) fun _ => preserves_pure _
  exact fun _ h => h

theorem preserves_readScript (hCapacity : WindowSource.Capacity capacity) (inflater : Transducer σ)
    (ceiling : Nat) (bytes : List UInt8) :
    Preserves (Bounded size capacity) (readScript inflater ceiling bytes) := by
  intro s h
  have hKept := ((preserves_scriptTurn hCapacity inflater ceiling).loop streamTurns)
    ((s.1.reader, s.2), bytes) h
  unfold Ensures at hKept ⊢
  rw [readScript, exec_ofFun]
  rcases hExec : (loop (scriptTurn inflater ceiling) streamTurns).exec ((s.1.reader, s.2), bytes) with
    ⟨_ | _, _⟩ <;> rw [hExec] at hKept <;> exact hKept

theorem preserves_advanceScript (hCapacity : WindowSource.Capacity capacity) (inflater : Transducer σ)
    (format : WiseFormat) (script : Script) :
    Preserves (Bounded size capacity) (advanceScript inflater format script) := by
  have hMapping (overlay : Overlay) (bytes : List UInt8) :
      Preserves (Bounded (σ := σ) size capacity) (finishMapping format overlay bytes) :=
    preserves_modify fun _ h => h
  apply preserves_get.bind
  rintro ⟨backend, _⟩
  dsimp only
  split
  · exact (hMapping _ _).bind fun _ => preserves_pure _
  refine Preserves.bind ?_ fun _ => ?_
  · exact (preserves_pure _).ite (preserves_restart _ _)
  apply (preserves_readScript hCapacity inflater _ _).bind
  rintro ⟨stop | _, bytes⟩
  · apply Preserves.ite
    · exact (preserves_setStage _).bind fun _ => preserves_pure _
    · exact (preserves_throw _).ite (preserves_throw _)
  · exact (hMapping _ _).bind fun _ => preserves_pure _

theorem preserves_advance (hCapacity : WindowSource.Capacity capacity) (inflater : Transducer σ)
    (format : WiseFormat) : Preserves (Bounded size capacity) (advance inflater format) := by
  have hEnsureAt (offset : Nat) :
      Preserves (Bounded (σ := σ) size capacity) (onWindow (WindowSource.ensureAt offset)) :=
    preserves_onWindow (WindowSource.preserves_ensureAt hCapacity offset)
  have hNeedRead (stage : Stage) : Preserves (Bounded (σ := σ) size capacity)
      (do setStage stage; return Advance.needRead) :=
    (preserves_setStage _).bind fun _ => preserves_pure _
  apply preserves_get.bind
  rintro ⟨backend, _⟩
  apply (preserves_setStage _).bind
  intro _
  split
  · apply (hEnsureAt _).bind
    intro _
    refine Preserves.ite ?_ (hNeedRead _)
    apply preserves_get.bind
    rintro ⟨backend, _⟩
    apply (preserves_onWindow (WindowSource.preserves_onPinned _)).bind
    intro overlay
    exact (preserves_setStage _).bind fun _ => preserves_pure _
  · apply (hEnsureAt _).bind
    intro _
    refine Preserves.ite ?_ (hNeedRead _)
    apply preserves_get.bind
    rintro ⟨backend, _⟩
    apply (preserves_onWindow (WindowSource.preserves_onPinned _)).bind
    intro first
    exact (preserves_setStage _).bind fun _ => preserves_pure _
  · exact preserves_advanceWalk hCapacity inflater _
  · exact preserves_advanceScript hCapacity inflater format _
  · exact preserves_pure _

end WiseBackend

/-- A buffer over the whole source, filled up to its end at most. -/
structure ContainerBuffer.Fits (size : Nat) (buffer : ContainerBuffer) : Prop where
  size_eq : buffer.size = size
  length_le : buffer.bytes.length ≤ size

theorem ContainerBuffer.Fits.append {buffer : ContainerBuffer} (h : buffer.Fits size) (data : List UInt8) :
    (buffer.append data).2.Fits size := by
  unfold ContainerBuffer.append
  split
  · exact h
  · have hSize := h.size_eq
    refine ⟨h.size_eq, ?_⟩
    simp only [List.length_append]
    omega

theorem ContainerBuffer.Fits.nextRead {buffer : ContainerBuffer} (h : buffer.Fits size)
    (hCapacity : WindowSource.Capacity capacity) (hIncomplete : buffer.isComplete = false) :
    (buffer.nextRead (WindowSource.clampU32 capacity)).InBounds size capacity := by
  have hSize := h.size_eq
  have hLength := h.length_le
  have hPos := hCapacity.pos
  have hLt := hCapacity.lt
  simp only [isComplete, decide_eq_false_iff_not] at hIncomplete
  constructor <;> simp only [ContainerBuffer.nextRead, WindowSource.clampU32] <;> omega

theorem ContainerBuffer.new_fits {buffer : ContainerBuffer} (h : ContainerBuffer.new size = .ok buffer) :
    buffer.Fits size := by
  unfold ContainerBuffer.new at h
  split at h
  · cases h
  · split at h <;> cases h
    exact ⟨rfl, Nat.zero_le _⟩

def Container.Fits (size : Nat) : Container σ → Prop
  | .wise _ => True
  | .cabinet buffer => buffer.Fits size
  | .zArchive buffer => buffer.Fits size

def Emission.Bounded (size capacity : Nat) : Emission → Prop
  | .needRead offset length => PendingRead.InBounds size capacity ⟨offset, length⟩
  | _ => True

def Emission.BoundedIfAny (size capacity : Nat) (emission : Option Emission) : Prop :=
  ∀ e, emission = some e → e.Bounded size capacity

namespace ContainerDispatcher

variable {inflater : Transducer σ} {decoders : Decoders} {fuel : Nat}

structure Bounded (size capacity : Nat) (d : ContainerDispatcher σ) : Prop where
  window : ∀ window, d.window = some window → window.Bounded size capacity
  container : ∀ container, d.container = some container → Container.Fits size container

abbrev Emits (size capacity : Nat) (m : Method σ Emission) : Prop :=
  Yields (Bounded size capacity) (Emission.Bounded size capacity) m

abbrev MayEmit (size capacity : Nat) (m : Method σ (Option Emission)) : Prop :=
  Yields (Bounded size capacity) (Emission.BoundedIfAny size capacity) m

theorem Bounded.with_window {d : ContainerDispatcher σ} {window : WindowSource} (h : d.Bounded size capacity)
    (hWindow : window.Bounded size capacity) : Bounded size capacity { d with window := some window } :=
  ⟨fun _ hSome => Option.some.inj hSome ▸ hWindow, h.container⟩

theorem Bounded.with_container {d : ContainerDispatcher σ} {container : Container σ}
    (h : d.Bounded size capacity) (hContainer : Container.Fits size container) :
    Bounded size capacity { d with container := some container } :=
  ⟨h.window, fun _ hSome => Option.some.inj hSome ▸ hContainer⟩

theorem yields_orFail {o : Option α} {P : α → Prop} (h : ∀ a, o = some a → P a) :
    Yields (Bounded (σ := σ) size capacity) P (orFail o) := by
  cases o with
  | none => exact yields_throw _
  | some a => exact yields_pure (h a rfl)

theorem mayEmit_none : MayEmit (σ := σ) size capacity (pure none) := yields_pure fun _ h => nomatch h

theorem Emits.some {m : Method σ Emission} (h : Emits size capacity m) :
    MayEmit size capacity (do return some (← m)) :=
  Yields.bind h fun _ he => yields_pure fun _ hSome => Option.some.inj hSome ▸ he

theorem preserves_setActive (active : Active) : Preserves (Bounded (σ := σ) size capacity) (setActive active) :=
  preserves_modify fun _ h => ⟨h.window, h.container⟩

theorem yields_refuse {P : α → Prop} : Yields (Bounded (σ := σ) size capacity) P refuse := by
  apply Yields.bind (P := fun _ => True)
  · exact (preserves_modify fun d h => ⟨h.window, h.container⟩).yields fun _ => trivial
  · exact fun _ _ => yields_throw _

theorem emits_arm {pending : PendingRead} (h : pending.InBounds size capacity) :
    Emits (σ := σ) size capacity (arm pending) := by
  apply Yields.bind (P := fun _ => True)
  · exact (preserves_modify fun d h => ⟨h.window, h.container⟩).yields fun _ => trivial
  · exact fun _ _ => yields_pure h

theorem emits_armWindow : Emits (σ := σ) size capacity armWindow := by
  apply yields_get.bind
  intro d hd
  apply (yields_orFail hd.window).bind
  intro window hWindow
  apply Yields.bind (P := fun _ => True)
  · exact (preserves_modify fun d h => h.with_window hWindow.takePending).yields fun _ => trivial
  intro _ _
  exact (yields_orFail hWindow.pending).bind fun pending hPending => emits_arm hPending

theorem preserves_onWindow {m : Machine (Stop WiseError) WindowSource α}
    (h : Preserves (WindowSource.Bounded size capacity) m) :
    Preserves (Bounded (σ := σ) size capacity) (onWindow m) := by
  apply Yields.preserves (P := fun _ => True)
  apply yields_get.bind
  intro d hd
  apply (yields_orFail hd.window).bind
  intro window hWindow
  have hAfter : (m.exec window).2.Bounded size capacity := by
    have hKept := h window hWindow
    unfold Ensures at hKept
    rcases hExec : m.exec window with ⟨_ | _, _⟩ <;> rw [hExec] at hKept <;> exact hKept
  apply Yields.bind (P := fun _ => True)
  · exact (preserves_modify fun d h => h.with_window hAfter).yields fun _ => trivial
  · exact fun _ _ => yields_pure trivial

theorem yields_newContainer (kind : ContainerKind) :
    Yields (Bounded (σ := σ) size capacity) (Container.Fits size) (newContainer inflater size kind) := by
  have hBuffer : Yields (Bounded (σ := σ) size capacity) (ContainerBuffer.Fits size) (newBuffer size) :=
    yields_ofExcept _ fun _ h => ContainerBuffer.new_fits h
  cases kind with
  | wiseOverlay => exact yields_get.bind fun _ _ => yields_pure trivial
  | microsoftCabinet => exact hBuffer.bind fun _ h => yields_pure h
  | installShieldZ => exact hBuffer.bind fun _ h => yields_pure h

theorem preserves_recognise (head : List UInt8) :
    Preserves (Bounded size capacity) (recognise inflater size head) := by
  unfold recognise
  split
  · exact (yields_refuse (P := fun _ => True)).preserves
  · apply (preserves_modify fun d h => ⟨h.window, h.container⟩).bind
    intro _
    apply Yields.preserves (P := fun _ => True)
    apply (yields_newContainer _).bind
    intro container hContainer
    apply (preserves_modify fun d h => ?_).yields fun _ => trivial
    exact ⟨h.window, (h.with_container hContainer).container⟩

theorem mayEmit_detect (hCapacity : WindowSource.Capacity capacity) :
    MayEmit size capacity (detect inflater) := by
  apply yields_get.bind
  intro d hd
  apply (yields_orFail hd.window).bind
  intro window hWindow
  apply Yields.bind (P := fun _ => True)
  · exact (preserves_onWindow (WindowSource.preserves_read hCapacity _ _)).yields fun _ => trivial
  rintro ((_ | _ | _) | head) _
  · exact emits_armWindow.some
  · exact yields_throw _
  · exact yields_throw _
  · apply Yields.ite
    · intro _
      rw [hWindow.size_eq]
      apply Yields.bind (P := fun _ => True)
      · exact (preserves_recognise head).yields fun _ => trivial
      · exact fun _ _ => mayEmit_none
    · exact fun _ => yields_refuse

theorem preserves_offer (token sizeBytes : UInt64) (spelling : List UInt8) (plan : Plan) :
    Preserves (Bounded (σ := σ) size capacity) (offer token sizeBytes spelling plan) := by
  apply preserves_get.bind
  intro d
  apply (preserves_rejectIf _ _).bind
  intro _
  apply (preserves_modify fun d h => ⟨h.window, h.container⟩).bind
  intro _
  apply (preserves_ofExcept _ _).bind
  intro path
  exact preserves_modify fun d h => ⟨h.window, h.container⟩

theorem preserves_offerBuffered (entries : List BufferedEntry) (keys : List (List UInt8)) :
    Preserves (Bounded (σ := σ) size capacity) (offerBuffered decoders entries keys) := by
  induction entries generalizing keys with
  | nil => exact preserves_pure _
  | cons entry rest ih =>
    apply preserves_get.bind
    intro d
    apply (preserves_pure _).ite
    split
    · exact ih keys
    · exact (preserves_offer _ _ _ _).bind fun _ => ih _

theorem mayEmit_loadBuffer (hCapacity : WindowSource.Capacity capacity) (decoder : BufferedDecoder)
    {buffer : ContainerBuffer} (h : buffer.Fits size) :
    MayEmit (σ := σ) size capacity
      (loadBuffer decoders decoder (WindowSource.clampU32 capacity) buffer) := by
  apply Yields.ite
  · intro hIncomplete
    exact (emits_arm (h.nextRead hCapacity hIncomplete)).some
  · intro _
    apply (yields_orFail (P := fun _ => True) fun _ _ => trivial).bind
    intro entries _
    apply ((preserves_offerBuffered entries []).yields (P := fun _ => True) fun _ => trivial).bind
    intro _ _
    apply ((preserves_setActive _).yields (P := fun _ => True) fun _ => trivial).bind
    exact fun _ _ => mayEmit_none

theorem mayEmit_load (hCapacity : WindowSource.Capacity capacity) :
    MayEmit (σ := σ) size capacity (load decoders) := by
  apply yields_get.bind
  intro d hd
  apply (yields_orFail hd.window).bind
  intro window hWindow
  apply yields_get.bind
  intro d hd
  rw [hWindow.capacity_eq]
  rcases hContainer : d.container with _ | _ | buffer | buffer
  · exact yields_throw _
  · exact yields_throw _
  · exact mayEmit_loadBuffer hCapacity _ (hd.container _ hContainer)
  · exact mayEmit_loadBuffer hCapacity _ (hd.container _ hContainer)

theorem preserves_offers (offers : List (WiseEntry × List UInt8)) :
    Preserves (Bounded (σ := σ) size capacity) (offers.forM fun (entry, spelling) =>
      offer entry.token entry.sizeBytes spelling
        (.wiseStream entry.compressedOffset entry.declaredCrc32 entry.sizeBytes)) := by
  induction offers with
  | nil => exact preserves_pure _
  | cons first rest ih => exact (preserves_offer _ _ _ _).bind fun _ => ih

theorem preserves_offerWise : Preserves (Bounded (σ := σ) size capacity) (offerWise decoders) := by
  have hLost : Preserves (Bounded (σ := σ) size capacity)
      (do modify fun d => { d with container := none }; throw (Stop.error DispatchError.failed) :
        Method σ Unit) :=
    (preserves_modify fun d h => ⟨h.window, fun _ hNone => nomatch hNone⟩).bind
      fun _ => preserves_throw _
  apply preserves_get.bind
  intro d
  rcases d.container with _ | backend | _ | _
  · exact hLost
  · exact preserves_get.bind fun d => preserves_offers _
  · exact hLost
  · exact hLost

theorem mayEmit_concludeWalk (result : Except (Stop WiseError) Advance) :
    MayEmit (σ := σ) size capacity (concludeWalk decoders result) := by
  rcases result with stop | _ | _ | _
  · exact yields_throw _
  · exact mayEmit_none
  · exact emits_armWindow.some
  · apply (preserves_offerWise.yields (P := fun _ => True) fun _ => trivial).bind
    intro _ _
    apply ((preserves_setActive _).yields (P := fun _ => True) fun _ => trivial).bind
    exact fun _ _ => mayEmit_none

theorem mayEmit_walk (hCapacity : WindowSource.Capacity capacity) :
    MayEmit size capacity (walk inflater decoders) := by
  apply yields_get.bind
  intro d hd
  have hTaken : Preserves (Bounded (σ := σ) size capacity)
      (modify fun d => { d with container := none } : Method σ PUnit) :=
    preserves_modify fun d h => ⟨h.window, fun _ hNone => nomatch hNone⟩
  apply (hTaken.yields (P := fun _ => True) fun _ => trivial).bind
  intro _ _
  rcases d.container with _ | backend | _ | _
  · exact yields_throw _
  · apply (yields_orFail hd.window).bind
    intro window hWindow
    have hAfter : ((WiseBackend.advance inflater decoders.wise).exec (backend, window)).2.2.Bounded
        size capacity := by
      have hKept := WiseBackend.preserves_advance hCapacity inflater decoders.wise (backend, window) hWindow
      unfold Ensures at hKept
      rcases hExec : (WiseBackend.advance inflater decoders.wise).exec (backend, window) with
        ⟨_ | _, _⟩ <;> rw [hExec] at hKept <;> exact hKept
    apply Yields.bind (P := fun _ => True)
    · apply (preserves_modify fun d h => ?_).yields fun _ => trivial
      exact (h.with_window hAfter).with_container trivial
    · exact fun _ _ => mayEmit_concludeWalk _
  · exact yields_throw _
  · exact yields_throw _

variable (inflater) in
theorem yields_wiseTurn (hCapacity : WindowSource.Capacity capacity) (declaredCrc32 : UInt32)
    (sizeBytes : UInt64) :
    Yields (fun s : Streaming σ => s.1.2.Bounded size capacity)
      (fun next => ∀ emission, next = some emission → Emission.BoundedIfAny size capacity emission)
      (wiseTurn inflater declaredCrc32 sizeBytes) := by
  have hSource {β : Type} {m : Machine (Stop WiseError) (StreamReader σ × WindowSource) β}
      (h : Preserves (fun s => s.2.Bounded size capacity) m) :
      Yields (fun s : Streaming σ => s.1.2.Bounded size capacity) (fun _ => True) (onSource m) :=
    (preserves_attempt (h.zoom (fun _ hs => hs) fun _ _ _ ht => ht)).yields fun _ => trivial
  have hOperation (m : Machine (Stop DispatchError) StreamOp PUnit) :
      Yields (fun s : Streaming σ => s.1.2.Bounded size capacity) (fun _ => True) (onOperation m) := by
    have hKept : Preserves (fun s : Streaming σ => s.1.2.Bounded size capacity) (onOperation m) :=
      (preserves_true m).zoom (fun _ _ => trivial) fun _ _ hs _ => hs
    exact hKept.yields fun _ => trivial
  have hReject (p : Prop) [Decidable p] (e : Stop DispatchError) :
      Yields (fun s : Streaming σ => s.1.2.Bounded size capacity) (fun _ => True) (rejectIf p e) :=
    (preserves_rejectIf p e).yields fun _ => trivial
  have hMiss (stop : Stop WiseError) :
      Yields (fun s : Streaming σ => s.1.2.Bounded size capacity)
        (fun next => ∀ emission, next = some emission → Emission.BoundedIfAny size capacity emission)
        (if stop = .error .sourceFailed then pure (some none) else throw (mapStop stop) :
          Machine (Stop DispatchError) (Streaming σ) (Option (Option Emission))) := by
    apply Yields.ite
    · exact fun _ => yields_pure fun emission hSome _ hNone => nomatch Option.some.inj hSome ▸ hNone
    · exact fun _ => yields_throw _
  apply yields_get.bind
  rintro ⟨⟨reader, _⟩, _⟩ _
  apply Yields.ite
  · intro _
    apply (hSource (StreamReader.preserves_finish (WindowSource.preserves_read hCapacity))).bind
    rintro (stop | metrics) _
    · exact hMiss stop
    · apply yields_get.bind
      rintro ⟨_, operation⟩ _
      apply (hReject _ _).bind
      intro _ _
      apply (hOperation _).bind
      intro _ _
      apply yields_pure
      rintro _ ⟨⟩ _ ⟨⟩
      trivial
  · intro _
    apply (hSource (StreamReader.preserves_read (WindowSource.preserves_read hCapacity) _ _)).bind
    rintro (stop | _ | ⟨byte, written⟩) _
    · exact hMiss stop
    · apply yields_get.bind
      rintro ⟨⟨reader, _⟩, _⟩ _
      exact (hReject _ _).bind fun _ _ => yields_pure fun _ hNone => nomatch hNone
    · apply (hOperation _).bind
      intro _ _
      apply yields_get.bind
      rintro ⟨_, operation⟩ _
      apply (hReject _ _).bind
      intro _ _
      apply yields_pure
      rintro _ ⟨⟩ _ ⟨⟩
      trivial

theorem preserves_startStream (compressedOffset : Nat) (operation : StreamOp) :
    Preserves (Bounded size capacity) (startStream inflater compressedOffset operation) := by
  apply preserves_get.bind
  intro d
  exact (preserves_pure _).ite (preserves_pure _)

theorem emits_wiseStep (hCapacity : WindowSource.Capacity capacity) (compressedOffset : Nat)
    (declaredCrc32 : UInt32) (sizeBytes : UInt64) (operation : StreamOp) :
    Emits size capacity (wiseStep inflater fuel compressedOffset declaredCrc32 sizeBytes operation) := by
  apply Yields.ite
  · intro _
    apply ((preserves_setActive _).yields (P := fun _ => True) fun _ => trivial).bind
    exact fun _ _ => yields_pure trivial
  intro _
  apply ((preserves_startStream _ _).yields (P := fun _ => True) fun _ => trivial).bind
  rintro ⟨reader, operation⟩ _
  apply Yields.bind (P := fun _ => True)
  · exact (preserves_modify fun d h => ⟨h.window, h.container⟩).yields fun _ => trivial
  intro _ _
  apply yields_get.bind
  intro d hd
  apply (yields_orFail hd.window).bind
  intro window hWindow
  have hRun := yields_loop (yields_wiseTurn inflater hCapacity declaredCrc32 sizeBytes) fuel
    ((reader, window), operation) hWindow
  unfold Ensures at hRun
  rcases hExec : (loop (wiseTurn inflater declaredCrc32 sizeBytes) fuel).exec
    ((reader, window), operation) with ⟨result, ⟨_, after⟩, _⟩
  rw [hExec] at hRun
  have hAfter : after.Bounded size capacity := by
    cases result with
    | error => exact hRun
    | ok => exact hRun.1
  apply Yields.bind (P := fun _ => True)
  · apply (preserves_modify fun d h => ?_).yields fun _ => trivial
    exact ⟨(h.with_window hAfter).window, h.container⟩
  intro _ _
  rcases result with stop | _ | emission
  · exact yields_throw _
  · exact emits_armWindow
  · exact yields_pure (hRun.2 emission rfl)

theorem yields_bufferedStep (sizeBytes : UInt64) :
    Yields (fun _ => True) (Emission.Bounded size capacity) (bufferedStep sizeBytes) := by
  apply yields_get.bind
  intro operation _
  apply Yields.ite
  · exact fun _ => yields_pure trivial
  intro _
  apply ((preserves_true _).yields (P := fun _ => True) fun _ => trivial).bind
  intro _ _
  apply ((preserves_true _).yields (P := fun _ => True) fun _ => trivial).bind
  exact fun _ _ => yields_pure trivial

theorem emits_streamStep (hCapacity : WindowSource.Capacity capacity) (operation : StreamOp) :
    Emits size capacity (streamStep inflater fuel operation) := by
  unfold streamStep
  split
  · rename_i sizeBytes _
    apply ((preserves_setActive _).yields (P := fun _ => True) fun _ => trivial).bind
    intro _ _
    apply yields_ofExcept
    intro emission hEmission
    have hExec : (bufferedStep sizeBytes).exec operation =
        (.ok emission, ((bufferedStep sizeBytes).exec operation).2) := Prod.ext hEmission rfl
    exact (((yields_bufferedStep sizeBytes) operation trivial).of_ok hExec).2
  · exact emits_wiseStep hCapacity _ _ _ _

theorem emits_emitBatch (start : Nat) : Emits (σ := σ) size capacity (emitBatch start) := by
  apply yields_get.bind
  intro d _
  apply Yields.ite <;> intro _ <;>
    exact ((preserves_setActive _).yields (P := fun _ => True) fun _ => trivial).bind
      fun _ _ => yields_pure trivial

theorem mayEmit_advanceTurn (hCapacity : WindowSource.Capacity capacity) :
    MayEmit size capacity (advanceTurn inflater decoders fuel) := by
  apply yields_get.bind
  intro d _
  split
  · exact (emits_streamStep hCapacity _).some
  · exact mayEmit_detect hCapacity
  · exact mayEmit_load hCapacity
  · exact mayEmit_walk hCapacity
  · exact (emits_emitBatch _).some
  · exact yields_throw _
  · exact yields_throw _

theorem emits_advance (hCapacity : WindowSource.Capacity capacity) :
    Emits size capacity (advance inflater decoders fuel) :=
  yields_loop (mayEmit_advanceTurn hCapacity) fuel

theorem preserves_beginPlan (plan : Plan) :
    Preserves (Bounded (σ := σ) size capacity) (beginPlan decoders plan) := by
  cases plan with
  | wiseStream => exact preserves_pure _
  | buffered token sizeBytes =>
    apply preserves_get.bind
    intro d
    apply ((yields_orFail (P := fun _ => True) fun _ _ => trivial).preserves).bind
    intro bytes
    exact (preserves_rejectIf _ _).bind fun _ => preserves_pure _

theorem preserves_beginStream (token : UInt64) :
    Preserves (Bounded (σ := σ) size capacity) (beginStream decoders token) := by
  apply preserves_get.bind
  intro d
  apply ((yields_orFail (P := fun _ => True) fun _ _ => trivial).preserves).bind
  intro index
  apply ((yields_orFail (P := fun _ => True) fun _ _ => trivial).preserves).bind
  intro plan
  apply (preserves_beginPlan plan).bind
  rintro ⟨sizeBytes, buffered⟩
  exact (preserves_setActive _).bind fun _ => preserves_pure _

def windowCapacity (policy : SourceReadPolicy) : Nat :=
  max (min policy.maximumReadBytes.toNat defaultWindowBytes) minimumWindowBytes

theorem windowCapacity_capacity (policy : SourceReadPolicy) :
    WindowSource.Capacity (windowCapacity policy) := by
  constructor <;> simp only [windowCapacity, minimumWindowBytes, defaultWindowBytes] <;> omega

theorem openWindow_bounded (policy : SourceReadPolicy) {window : Option WindowSource}
    (h : ∀ w, window = some w → w.Bounded policy.sourceSize.toNat (windowCapacity policy)) :
    (openWindow policy window).Bounded policy.sourceSize.toNat (windowCapacity policy) := by
  cases window with
  | some window => exact h window rfl
  | none => exact ⟨rfl, rfl, fun _ hNone => nomatch hNone⟩

theorem preserves_begin (policy : SourceReadPolicy) (operation : Operation) (token : UInt64) :
    Preserves (Bounded (σ := σ) policy.sourceSize.toNat (windowCapacity policy))
      (begin decoders operation token policy) := by
  apply preserves_get.bind
  intro d
  apply (preserves_rejectIf _ _).bind
  intro _
  refine Preserves.bind (preserves_modify ?_) fun _ => ?_
  · exact fun d h => ⟨(h.with_window (openWindow_bounded policy h.window)).window, h.container⟩
  cases operation with
  | enumerate =>
    exact (preserves_modify fun d h => ⟨h.window, h.container⟩).bind fun _ => preserves_pure _
  | stream => exact preserves_beginStream token

theorem preserves_appendReply (data : List UInt8) :
    Preserves (Bounded (σ := σ) size capacity) (appendReply data) := by
  apply Yields.preserves (P := fun _ => True)
  apply yields_get.bind
  intro d hd
  rcases hContainer : d.container with _ | _ | buffer | buffer
  · exact yields_throw _
  · exact yields_throw _
  all_goals
    have hFits : (buffer.append data).2.Fits size :=
      ContainerBuffer.Fits.append (hd.container _ hContainer) data
    refine Preserves.yields ?_ fun _ => trivial
    refine Preserves.bind (preserves_modify ?_) fun _ => preserves_rejectIf _ _
    exact fun d h => h.with_container hFits

theorem preserves_deliverReply (offset : Nat) (data : List UInt8) :
    Preserves (Bounded (σ := σ) size capacity) (deliverReply offset data) := by
  apply Yields.preserves (P := fun _ => True)
  apply yields_get.bind
  intro d hd
  apply (yields_orFail hd.window).bind
  intro window hWindow
  refine Preserves.yields ?_ fun _ => trivial
  refine Preserves.bind (preserves_modify ?_) fun _ => preserves_rejectIf _ _
  exact fun d h => h.with_window (hWindow.deliver offset data)

theorem preserves_acceptReadReply (reply : ReadReply) :
    Preserves (Bounded (σ := σ) size capacity) (acceptReadReply reply) := by
  apply preserves_get.bind
  intro d
  apply (preserves_modify fun d h => ⟨h.window, h.container⟩).bind
  intro _
  apply ((yields_orFail (P := fun _ => True) fun _ _ => trivial).preserves).bind
  intro armed
  apply (preserves_rejectIf _ _).bind
  intro _
  exact (preserves_appendReply _).ite (preserves_deliverReply _ _)

theorem Bounded.cancel {d : ContainerDispatcher σ} (h : d.Bounded size capacity) :
    d.cancel.Bounded size capacity := by
  refine ⟨?_, h.container⟩
  intro window hWindow
  obtain ⟨before, hBefore, rfl⟩ := Option.map_eq_some_iff.mp hWindow
  exact (h.window before hBefore).takePending

end ContainerDispatcher

section Runs

/-- What the service calls; a reply carries what the source holds where the last read asked. -/
inductive Call
  | begin (operation : Operation) (token : UInt64)
  | step
  | reply
  | cancel
  | end_
  deriving DecidableEq, Repr

structure Hosted (σ : Type) where
  dispatcher : ContainerDispatcher σ
  asked : Option PendingRead

structure Host (σ : Type) where
  inflater : Transducer σ
  decoders : Decoders
  fuel : Nat
  policy : SourceReadPolicy
  source : List UInt8

def survives {α : Type} : Except (Stop DispatchError) α → Bool
  | .ok _ => true
  | .error (.error _) => true
  | .error _ => false

def askedBy : Except (Stop DispatchError) DispatchAction → Option PendingRead
  | .ok (.needRead offset length) => some ⟨offset.toNat, length.toNat⟩
  | _ => none

namespace Host

def replyTo (host : Host σ) (read : PendingRead) : ReadReply :=
  ⟨1, .ok, (host.source.drop read.offset).take read.length⟩

def perform (host : Host σ) (h : Hosted σ) : Call → Option PendingRead × Option (Hosted σ)
  | .begin operation token =>
    let result := (ContainerDispatcher.begin host.decoders operation token host.policy).exec h.dispatcher
    (none, if survives result.1 then some ⟨result.2, h.asked⟩ else none)
  | .step =>
    let result := (ContainerDispatcher.step host.inflater host.decoders host.fuel).exec h.dispatcher
    (askedBy result.1, if survives result.1 then some ⟨result.2, askedBy result.1⟩ else none)
  | .reply =>
    match h.asked with
    | none => (none, some h)
    | some read =>
      let result := (ContainerDispatcher.acceptReadReply (host.replyTo read)).exec h.dispatcher
      (none, if survives result.1 then some ⟨result.2, none⟩ else none)
  | .cancel => (none, some ⟨h.dispatcher.cancel, none⟩)
  | .end_ => (none, some ⟨h.dispatcher.end_, none⟩)

def reads (host : Host σ) : List Call → Hosted σ → List PendingRead
  | [], _ => []
  | call :: calls, h =>
    match host.perform h call with
    | (asked, none) => asked.toList
    | (asked, some h') => asked.toList ++ reads host calls h'

/-- A session in bounds: the dispatcher's invariant, over the policy's source and window. -/
def Bounded (host : Host σ) (h : Hosted σ) : Prop :=
  h.dispatcher.Bounded host.policy.sourceSize.toNat (ContainerDispatcher.windowCapacity host.policy)

def ReadInBounds (host : Host σ) (read : PendingRead) : Prop :=
  read.InBounds host.policy.sourceSize.toNat (ContainerDispatcher.windowCapacity host.policy)

theorem askedBy_action {host : Host σ} {entries : List EntryBatchEntry} {emission : Emission}
    (h : emission.Bounded host.policy.sourceSize.toNat (ContainerDispatcher.windowCapacity host.policy))
    {read : PendingRead} (hRead : askedBy (.ok (ContainerDispatcher.action entries emission)) = some read) :
    host.ReadInBounds read := by
  cases emission with
  | needRead offset length =>
    have hSize := host.policy.sourceSize.toNat_lt
    have hCapacity := (ContainerDispatcher.windowCapacity_capacity host.policy).lt
    have hInSource : offset + length ≤ host.policy.sourceSize.toNat := h.in_source
    have hWidth : length ≤ ContainerDispatcher.windowCapacity host.policy := h.le_capacity
    have hOffset : offset < UInt64.size := by
      simp only [UInt64.size]
      omega
    have hLength : length < UInt32.size := by
      simp only [UInt32.size]
      omega
    simp only [ContainerDispatcher.action, askedBy, Option.some.injEq] at hRead
    subst hRead
    rw [UInt64.toNat_ofNat_of_lt' hOffset, UInt32.toNat_ofNat_of_lt' hLength]
    exact h
  | batch | chunk | complete => cases hRead

theorem perform_bounded {host : Host σ} {h : Hosted σ} (hBounded : host.Bounded h) (call : Call) :
    (∀ read, (host.perform h call).1 = some read → host.ReadInBounds read) ∧
      ∀ h', (host.perform h call).2 = some h' → host.Bounded h' := by
  have hKept {α : Type} {m : ContainerDispatcher.Method σ α}
      (hm : Preserves (ContainerDispatcher.Bounded host.policy.sourceSize.toNat
        (ContainerDispatcher.windowCapacity host.policy)) m) :
      (m.exec h.dispatcher).2.Bounded host.policy.sourceSize.toNat
        (ContainerDispatcher.windowCapacity host.policy) := by
    have hEnsures := hm h.dispatcher hBounded
    unfold Ensures at hEnsures
    rcases hExec : m.exec h.dispatcher with ⟨_ | _, _⟩ <;> rw [hExec] at hEnsures <;> exact hEnsures
  cases call with
  | begin operation token =>
    refine ⟨(fun _ hNone => nomatch hNone), fun h' hSome => ?_⟩
    obtain ⟨-, ⟨⟩⟩ := Option.ite_none_right_eq_some.mp hSome
    exact hKept (ContainerDispatcher.preserves_begin host.policy operation token)
  | step =>
    have hEmits : ContainerDispatcher.Emits host.policy.sourceSize.toNat
        (ContainerDispatcher.windowCapacity host.policy)
        (ContainerDispatcher.advance host.inflater host.decoders host.fuel) :=
      ContainerDispatcher.emits_advance (ContainerDispatcher.windowCapacity_capacity host.policy)
    have hStep : Ensures (ContainerDispatcher.step host.inflater host.decoders host.fuel) h.dispatcher
        (fun action _ => ∀ read, askedBy (.ok action) = some read → host.ReadInBounds read)
        fun _ _ => True := by
      rw [ContainerDispatcher.step, ensures_bind]
      apply (hEmits h.dispatcher hBounded).mono
      · intro emission d hEmission read hRead
        exact askedBy_action hEmission.2 hRead
      · exact fun _ _ _ => trivial
    refine ⟨fun read hRead => ?_, fun h' hSome => ?_⟩
    · rcases hExec : (ContainerDispatcher.step host.inflater host.decoders host.fuel).exec h.dispatcher with
        ⟨stop | action, d⟩
      · simp only [perform, hExec] at hRead
        cases hRead
      · simp only [perform, hExec] at hRead
        exact hStep.of_ok hExec read hRead
    · obtain ⟨-, ⟨⟩⟩ := Option.ite_none_right_eq_some.mp hSome
      exact hKept (Yields.preserves (hEmits.bind fun _ _ => yields_get.bind fun _ _ =>
        yields_pure (P := fun _ => True) trivial))
  | reply =>
    simp only [perform]
    split
    · exact ⟨(fun _ hNone => nomatch hNone), fun h' hSome => Option.some.inj hSome ▸ hBounded⟩
    · refine ⟨(fun _ hNone => nomatch hNone), fun h' hSome => ?_⟩
      obtain ⟨-, ⟨⟩⟩ := Option.ite_none_right_eq_some.mp hSome
      exact hKept (ContainerDispatcher.preserves_acceptReadReply _)
  | cancel =>
    refine ⟨(fun _ hNone => nomatch hNone), fun h' hSome => ?_⟩
    cases hSome
    exact ContainerDispatcher.Bounded.cancel hBounded
  | end_ =>
    refine ⟨(fun _ hNone => nomatch hNone), fun h' hSome => ?_⟩
    cases hSome
    exact ⟨hBounded.window, hBounded.container⟩

theorem reads_bounded {host : Host σ} {h : Hosted σ} (hBounded : host.Bounded h) (calls : List Call) :
    ∀ read ∈ host.reads calls h, host.ReadInBounds read := by
  induction calls generalizing h with
  | nil => exact fun _ hMem => nomatch hMem
  | cons call calls ih =>
    obtain ⟨hAsked, hNext⟩ := perform_bounded hBounded call
    intro read hMem
    rw [reads] at hMem
    rcases hPerform : host.perform h call with ⟨asked, _ | h'⟩
    · rw [hPerform] at hMem hAsked
      exact hAsked read (Option.mem_toList.mp hMem)
    · rw [hPerform] at hMem hAsked hNext
      rcases List.mem_append.mp hMem with hMem | hMem
      · exact hAsked read (Option.mem_toList.mp hMem)
      · exact ih (hNext h' rfl) read hMem

end Host

/-- A read that the negotiated policy allows, so that the service sends its request. -/
structure FollowsPolicy (policy : SourceReadPolicy) (read : PendingRead) : Prop where
  pos : 0 < read.length
  le_maximum : read.length ≤ policy.maximumReadBytes.toNat
  in_source : read.offset + read.length ≤ policy.sourceSize.toNat
  prepared : ∀ (sequence : UInt32) (context : FrameContext), sequence ≠ 0 →
    readRequestPayloadBytes ≤ context.sendPayload →
    ∃ frame, prepareReadRequest (.ofNat read.offset) (.ofNat read.length) false sequence policy context
      = .ok frame

theorem prepareReadRequest_accepts {policy : SourceReadPolicy} {offset : UInt64} {length sequence : UInt32}
    {context : FrameContext} (hPos : 0 < length.toNat)
    (hMaximum : length.toNat ≤ policy.maximumReadBytes.toNat)
    (hSource : offset.toNat + length.toNat ≤ policy.sourceSize.toNat) (hSequence : sequence ≠ 0)
    (hPayload : readRequestPayloadBytes ≤ context.sendPayload) :
    ∃ frame, prepareReadRequest offset length false sequence policy context = .ok frame := by
  have hSize := policy.sourceSize.toNat_lt
  have hLength : length ≠ 0 := by
    rintro rfl
    exact absurd hPos (Nat.lt_irrefl 0)
  have hMaximum' : ¬ length > policy.maximumReadBytes := by
    rw [gt_iff_lt, UInt32.lt_iff_toNat_lt]
    omega
  have hOffset : ¬ offset ≥ policy.sourceSize := by
    rw [ge_iff_le, UInt64.le_iff_toNat_le]
    omega
  have hValid : validateReadRequest ⟨sequence, offset, length⟩ policy sequence = .ok () := by
    simp only [validateReadRequest, hSequence, hLength, hMaximum', hOffset, if_false, ne_eq,
      not_true_eq_false, false_or, ite_eq_right_iff]
    intro hBound
    exact absurd ⟨by omega, hSource⟩ hBound
  have hEncoded := encodeReadRequestPayload_eq_ok_iff.mpr ⟨hValid, hPayload, rfl⟩
  have hAllowed : ¬ (false = true ∨ sequence = 0 ∨ length = 0 ∨ length > policy.maximumReadBytes ∨
      offset ≥ policy.sourceSize ∨ ¬ length.toNat ≤ policy.sourceSize.toNat - offset.toNat) := by
    simp only [hSequence, hLength, hMaximum', hOffset, false_or, Bool.false_eq_true]
    omega
  rw [prepareReadRequest, if_neg hAllowed, hEncoded]
  change ∃ frame, PreparedFrame.new .readRequest context (ReadRequest.image ⟨sequence, offset, length⟩) _ = _
  rw [PreparedFrame.new, ReadRequest.length_image, if_neg (by decide)]
  exact ⟨_, rfl⟩

theorem FollowsPolicy.of_inBounds {policy : SourceReadPolicy} {read : PendingRead} {capacity : Nat}
    (h : read.InBounds policy.sourceSize.toNat capacity)
    (hMaximum : read.length ≤ policy.maximumReadBytes.toNat) : FollowsPolicy policy read := by
  refine ⟨h.pos, hMaximum, h.in_source, ?_⟩
  intro sequence context hSequence hPayload
  have hSize := policy.sourceSize.toNat_lt
  have hWidth := policy.maximumReadBytes.toNat_lt
  have hSource := h.in_source
  have hOffset : read.offset < UInt64.size := by
    simp only [UInt64.size]
    omega
  have hLength : read.length < UInt32.size := by
    simp only [UInt32.size]
    omega
  apply prepareReadRequest_accepts _ _ _ hSequence hPayload
  · rw [UInt32.toNat_ofNat_of_lt' hLength]
    exact h.pos
  · rw [UInt32.toNat_ofNat_of_lt' hLength]
    exact hMaximum
  · rw [UInt64.toNat_ofNat_of_lt' hOffset, UInt32.toNat_ofNat_of_lt' hLength]
    exact hSource

theorem exec_read_fresh {policy : SourceReadPolicy} :
    (WindowSource.read 0 detectBytes).exec (ContainerDispatcher.openWindow policy none) =
      (.error (.error .sourceFailed), (ContainerDispatcher.openWindow policy none).arm 0) := by
  have hSize : policy.sourceSize.toNat ≠ 0 := by
    intro hZero
    exact policy.sourceSize_ne (UInt64.toNat_inj.mp hZero)
  change exec (if detectBytes = 0 ∨ policy.sourceSize.toNat - 0 = 0 then _ else _) _ = _
  rw [if_neg (by simp [detectBytes, hSize])]
  rfl

theorem first_read (host : Host σ) (limits : BackendLimits) (arenaFree : Nat) (hFuel : 0 < host.fuel) :
    host.reads [.begin .enumerate 0, .step] ⟨.new arenaFree limits, none⟩ =
      [⟨0, min (ContainerDispatcher.windowCapacity host.policy) host.policy.sourceSize.toNat⟩] := by
  let opened : ContainerDispatcher σ := { ContainerDispatcher.new arenaFree limits with
    window := some (ContainerDispatcher.openWindow host.policy none), active := .enumerate .detect }
  have hBegin : (ContainerDispatcher.begin host.decoders .enumerate 0 host.policy).exec
      (ContainerDispatcher.new arenaFree limits) = (.ok 0, opened) := rfl
  have hDetect : Ensures (ContainerDispatcher.detect host.inflater) opened
      (fun emission _ => emission = some (.needRead 0 (WindowSource.clampU32
        (min (ContainerDispatcher.windowCapacity host.policy) (host.policy.sourceSize.toNat - 0)))))
      fun _ _ => False := by
    simp only [ContainerDispatcher.detect, ContainerDispatcher.onWindow, opened, ensures_bind,
      ensures_get, ContainerDispatcher.orFail, ensures_pure, ensures_modify, exec_read_fresh,
      ContainerDispatcher.armWindow, ContainerDispatcher.arm, WindowSource.takePending, WindowSource.arm]
    rfl
  have hStep : Ensures (ContainerDispatcher.step host.inflater host.decoders host.fuel) opened
      (fun action _ => action = .needRead (.ofNat 0) (.ofNat (WindowSource.clampU32
        (min (ContainerDispatcher.windowCapacity host.policy) (host.policy.sourceSize.toNat - 0)))))
      fun _ _ => False := by
    obtain ⟨fuel, hSucc⟩ := Nat.exists_eq_add_of_lt hFuel
    rw [ContainerDispatcher.step, ContainerDispatcher.advance, hSucc, loop, ensures_bind, ensures_bind]
    refine hDetect.mono ?_ fun _ _ h => h
    rintro emission d rfl
    rfl
  obtain ⟨_, after, hExec, rfl⟩ := hStep.exists_ok
  have hSize := host.policy.sourceSize.toNat_lt
  have hCapacity := (ContainerDispatcher.windowCapacity_capacity host.policy).lt
  simp only [Host.reads, Host.perform, hBegin, survives, if_true, hExec, askedBy, Option.toList]
  rw [WindowSource.clampU32, UInt32.toNat_ofNat_of_lt' (by simp only [UInt32.size]; omega)]
  simp only [Nat.sub_zero, List.nil_append, List.append_nil]
  rw [Nat.min_eq_left (by omega)]
  rfl

/-- Every read of every run follows the negotiated policy exactly when the floor of the
window, or the whole source, is under the policy's ceiling. -/
theorem reads_follow_policy_iff (inflater : Transducer σ) (decoders : Decoders) (limits : BackendLimits)
    (arenaFree : Nat) (policy : SourceReadPolicy) (source : List UInt8) :
    (∀ fuel calls, ∀ read ∈ Host.reads ⟨inflater, decoders, fuel, policy, source⟩ calls
        ⟨.new arenaFree limits, none⟩, FollowsPolicy policy read) ↔
      min minimumWindowBytes policy.sourceSize.toNat ≤ policy.maximumReadBytes.toNat := by
  constructor
  · intro h
    have hFirst := first_read ⟨inflater, decoders, 1, policy, source⟩ limits arenaFree Nat.one_pos
    have hFollows := h 1 [.begin .enumerate 0, .step] _ (hFirst ▸ List.mem_singleton.mpr rfl)
    have hMaximum := hFollows.le_maximum
    simp only [ContainerDispatcher.windowCapacity] at hMaximum
    omega
  · intro hCeiling fuel calls read hRead
    have hNew : Host.Bounded ⟨inflater, decoders, fuel, policy, source⟩
        ⟨ContainerDispatcher.new arenaFree limits, none⟩ :=
      ⟨(fun _ hNone => nomatch hNone), fun _ hNone => nomatch hNone⟩
    have hBounds : read.InBounds policy.sourceSize.toNat (ContainerDispatcher.windowCapacity policy) :=
      Host.reads_bounded hNew calls read hRead
    apply FollowsPolicy.of_inBounds hBounds
    have hWidth := hBounds.le_capacity
    have hSource := hBounds.in_source
    simp only [ContainerDispatcher.windowCapacity] at hWidth
    omega

def narrowHost : Host Unit where
  inflater := ⟨(), fun _ => .fail⟩
  decoders := ⟨⟨fun _ _ => .error .panic, fun _ _ _ => .error .panic, fun _ _ _ _ => ⟨[], fun _ => none⟩⟩,
    ⟨fun _ => none, fun _ _ => none⟩, ⟨fun _ => none, fun _ _ => none⟩, fun _ _ => none, fun _ => []⟩
  fuel := 1
  policy := ⟨8192, 4096, by decide, by decide, by decide⟩
  source := List.replicate 8192 0

def narrowLimits : BackendLimits := ⟨⟨1, 1, 1, 1, 1, 0, 1⟩, 1⟩

theorem narrow_ceiling_overread :
    ¬ ∀ calls, ∀ read ∈ narrowHost.reads calls ⟨.new 0 narrowLimits, none⟩,
      FollowsPolicy narrowHost.policy read := by
  intro h
  have hFirst := first_read narrowHost narrowLimits 0 Nat.one_pos
  have hFollows := h [.begin .enumerate 0, .step] _ (hFirst ▸ List.mem_singleton.mpr rfl)
  exact absurd hFollows.le_maximum (by decide)

end Runs

end OpenHalfLife.Backends
