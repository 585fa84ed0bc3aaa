import OpenHalfLife.Lib.Machine
import OpenHalfLife.Save.GameFile

/-! # What the engine saves and what it loads -/

namespace OpenHalfLife.Save

open Result

set_option autoImplicit false

variable {P : Parts}

/-! ## The codecs restore what the writer lets through -/

namespace Postcard

theorem part_restores (kind : Part) (value : P.Value kind) : (part P kind).Restores value :=
  (P.codec kind).restores value

theorem string_restores (value : String) : string.Restores value := by
  intro rest
  simp only [string]
  rw [Codec.blob_restores (utf8 value), Option.bind_eq_bind, Option.bind_some]
  simp only [fromUtf8_utf8]
  rfl

theorem word32_restores (value : UInt32) : word32.Restores value := by
  apply Codec.Restores.view
  · apply Codec.Restores.guarded (Codec.varint_restores _)
    exact decide_eq_true value.toNat_lt
  · exact UInt32.ofNat_toNat

theorem engineHeader_restores (header : EngineHeader P) : (engineHeader P).Restores header := by
  apply Codec.Restores.view
  · apply Codec.Restores.pair (string_restores _)
    apply Codec.Restores.pair
    · exact Codec.Restores.option fun title _ => string_restores title
    · exact part_restores _ _
  · rfl

theorem projectileRuntime_restores {runtime : ProjectileRuntimeSnapshot P} (h : runtime.withinLimits = true) :
    (projectileRuntime P).Restores runtime := by
  simp only [ProjectileRuntimeSnapshot.withinLimits, Bool.and_eq_true, decide_eq_true_eq] at h
  obtain ⟨⟨attacks, owners⟩, cooldowns⟩ := h
  apply Codec.Restores.view
  · apply Codec.Restores.pair (Codec.Restores.bounded (fun value _ => part_restores _ value) attacks)
    apply Codec.Restores.pair (Codec.Restores.bounded (fun value _ => part_restores _ value) owners)
    apply Codec.Restores.pair (Codec.Restores.bounded (fun value _ => part_restores _ value) cooldowns)
    exact part_restores _ _
  · rfl

theorem length_le_of_sanitizedModel {model : String} (h : sanitizedModel model = some model) :
    (utf8 model).length ≤ 260 := by
  simp only [sanitizedModel] at h
  split at h
  · rename_i passes
    simp only [relative, Bool.and_eq_true, decide_eq_true_eq] at passes
    rw [Option.some.inj h] at passes
    exact passes.1.1.1.2
  · cases h

theorem gibModel_restores {gib : Option String} (h : gib.all (fun model => sanitizedModel model == some model) = true) :
    gibModel.Restores gib := by
  apply Codec.Restores.option
  rintro model rfl
  apply Codec.Restores.guarded (string_restores model)
  have same : sanitizedModel model = some model := eq_of_beq h
  rw [Bool.and_eq_true, decide_eq_true_eq]
  exact ⟨length_le_of_sanitizedModel same, h⟩

theorem model_restores {gib : Option String} (h : gib.all validModel = true) : model.Restores gib := by
  apply Codec.Restores.option
  rintro model rfl
  exact Codec.Restores.guarded (string_restores model) h

theorem mapEffectCommand_restores {command : MapEffectCommand P} (h : command.isValid = true) :
    (mapEffectCommand P).Restores command := by
  obtain ⟨head, effect⟩ := command
  rw [MapEffectCommand.isValid, Bool.and_eq_true] at h
  apply Codec.Restores.view
  · apply Codec.Restores.pair (part_restores _ _)
    intro rest
    cases effect with
    | explosion definition | shake definition | fade definition =>
      simp only [mapEffect, List.append_assoc]
      rw [Codec.varint_restores, Option.bind_eq_bind, Option.bind_some]
      simp only
      rw [part_restores, Option.map_some]
    | breaking breakHead gib =>
      have gibs := gibModel_restores (Bool.and_eq_true _ _ ▸ h.2).2
      have both : ((part P .breakHead).pair gibModel).Restores (breakHead, gib) :=
        Codec.Restores.pair (part_restores _ _) gibs
      simp only [mapEffect, List.append_assoc]
      rw [Codec.varint_restores, Option.bind_eq_bind, Option.bind_some]
      simp only
      rw [both, Option.map_some]
  · rfl

theorem debrisRecord_restores {record : DebrisRecord P} (h : record.isValid = true) :
    (debrisRecord P).Restores record := by
  rw [DebrisRecord.isValid, Bool.and_eq_true] at h
  apply Codec.Restores.view
  · exact Codec.Restores.pair (part_restores _ _) (model_restores h.2)
  · rfl

theorem mapEffects_restores {effects : MapEffectsSnapshot P} (h : effects.withinLimits = true) :
    (mapEffects P).Restores effects := by
  simp only [MapEffectsSnapshot.withinLimits, Bool.and_eq_true, decide_eq_true_eq, List.all_eq_true] at h
  obtain ⟨⟨⟨⟨⟨⟨⟨⟨pending, debris⟩, consumed⟩, fx⟩, active⟩, uses⟩, activators⟩, commands⟩, records⟩ := h
  apply Codec.Restores.view
  · apply Codec.Restores.pair (Codec.Restores.bounded (fun c member => mapEffectCommand_restores (commands c member)) pending)
    apply Codec.Restores.pair (Codec.Restores.bounded (fun r member => debrisRecord_restores (records r member)) debris)
    apply Codec.Restores.pair (part_restores _ _)
    apply Codec.Restores.pair (Codec.Restores.bounded (fun value _ => part_restores _ value) consumed)
    apply Codec.Restores.pair (Codec.Restores.bounded (fun value _ => part_restores _ value) fx)
    apply Codec.Restores.pair (Codec.Restores.bounded (fun value _ => part_restores _ value) active)
    apply Codec.Restores.pair (Codec.Restores.bounded (fun value _ => part_restores _ value) uses)
    exact Codec.Restores.bounded (fun value _ => part_restores _ value) activators
  · rfl

theorem tanks_restores {snapshot : TanksSnapshot P} (h : snapshot.withinLimits = true) :
    (tanks P).Restores snapshot := by
  simp only [TanksSnapshot.withinLimits, Bool.and_eq_true, decide_eq_true_eq] at h
  obtain ⟨⟨⟨states, projectiles⟩, _⟩, _⟩ := h
  apply Codec.Restores.view
  · apply Codec.Restores.pair (Codec.Restores.bounded (fun value _ => part_restores _ value) states)
    apply Codec.Restores.pair (Codec.Restores.option fun value _ => part_restores _ value)
    apply Codec.Restores.pair (Codec.Restores.option fun value _ => part_restores _ value)
    apply Codec.Restores.pair (Codec.Restores.option fun value _ => part_restores _ value)
    exact Codec.Restores.bounded (fun value _ => part_restores _ value) projectiles
  · rfl

theorem chargerReservoirs_restores {snapshot : ChargerReservoirsSnapshot P} (h : snapshot.withinLimits = true) :
    (chargerReservoirs P).Restores snapshot := by
  simp only [ChargerReservoirsSnapshot.withinLimits, Bool.and_eq_true, decide_eq_true_eq] at h
  obtain ⟨⟨⟨_, few⟩, _⟩, _⟩ := h
  have entry (value : ChargerReservoirEntry P) : (chargerReservoirEntry P).Restores value := by
    apply Codec.Restores.view
    · exact Codec.Restores.pair (word32_restores _) (part_restores _ _)
    · rfl
  apply Codec.Restores.view
  · exact Codec.Restores.pair (Codec.byte_restores _) (Codec.Restores.bounded (fun value _ => entry value) few)
  · rfl

end Postcard

theorem elementCodec_restores (sequence : Sequence) (value : Element P sequence) :
    (elementCodec P sequence).Restores value := by
  cases sequence with
  | carriedEntities => exact Postcard.part_restores _ _
  | moverState | makerChildren | momentaryDoors | breakables | trainHandoverYaw | platrots | ambients | switches
  | pathStates | bosses => exact Codec.Restores.option fun inner _ => Postcard.part_restores _ inner

theorem singleCodec_restores {single : Single} {content : Content P (.single single)}
    (h : writable P (.single single) content = true) : (singleCodec P single).Restores content := by
  cases single with
  | engineHeader => exact Postcard.engineHeader_restores content
  | mapEffects => exact Postcard.mapEffects_restores h
  | tanks => exact Postcard.tanks_restores h
  | chargerReservoirs => exact Postcard.chargerReservoirs_restores h
  | projectileRuntime => exact Postcard.projectileRuntime_restores h
  | playerCarry | entityRegistry | simulation | globalState | lightStyleTime | view | inventory | entityCombat | ai
  | projectiles | rng | rotatingMovers | teleportState => exact Postcard.part_restores _ content

theorem deserializeBoundedVec_encodeAll {α : Type} {element : Codec α} (values : List α) (maxLen : Nat)
    (h : ∀ value ∈ values, element.Restores value) :
    deserializeBoundedVec element (element.encodeAll values) maxLen =
      if values.length ≤ maxLen then some values else none := by
  have numbers := Codec.varint_restores values.length (values.flatMap element.encode)
  have read := Codec.elements_append values [] [] h (Nat.zero_le maxLen)
  rw [List.append_nil, List.length_nil, Nat.zero_add] at read
  rw [deserializeBoundedVec, Codec.encodeAll, numbers, Option.bind_eq_bind, Option.bind_some]
  simp only
  rw [read]
  split <;> rfl

/-! ## The sections of a save -/

theorem mem_order (s : Section) : s ∈ Section.order := by
  rcases s with single | sequence
  · cases single <;> decide
  · cases sequence <;> decide

theorem tag_injective {s s' : Section} (h : s.tag = s'.tag) : s = s' := by
  have distinct : (Section.order.map Section.tag).Nodup := by decide
  exact List.inj_on_of_nodup_map distinct (mem_order s) (mem_order s') h

namespace GameSave

def piece (save : GameSave P) (s : Section) : Option (UInt32 × List UInt8) :=
  (save.stored s).map fun content => (s.tag, encodeContent P s content)

theorem writeSection_ok {save : GameSave P} {writer next : SaveWriter} {s : Section} (formed : writer.Formed)
    (h : save.writeSection writer s = .ok next) :
    next = { writer with sections := writer.sections ++ (save.piece s).toList } ∧ next.Formed ∧
      ∀ content ∈ save.stored s, writable P s content = true := by
  rw [writeSection] at h
  rw [piece]
  cases held : save.stored s with
  | none =>
    rw [held] at h
    cases h
    refine ⟨?_, formed, ?_⟩
    · simp
    · simp
  | some content =>
    simp only [held] at h
    split at h
    · rename_i passes
      rcases SaveWriter.addSection_cases writer s.tag (encodeContent P s content) with
        ⟨error, refused⟩ | ⟨added, _, _⟩
      · simp [refused] at h
      · have after := SaveWriter.formed_addSections formed [(s.tag, encodeContent P s content)]
        simp only [SaveWriter.addSections, added] at after
        simp only [added] at h
        cases h
        refine ⟨rfl, after, ?_⟩
        intro other same
        exact Option.mem_some_iff.mp same ▸ passes
    · cases h

theorem writeSections_ok {save : GameSave P} (sections : List Section) :
    ∀ {writer next : SaveWriter}, writer.Formed → sections.foldlM save.writeSection writer = .ok next →
      next = { writer with sections := writer.sections ++ sections.filterMap save.piece } ∧ next.Formed ∧
        ∀ s ∈ sections, ∀ content ∈ save.stored s, writable P s content = true := by
  induction sections with
  | nil =>
    intro writer next formed h
    cases h
    exact ⟨by simp, formed, by simp⟩
  | cons s sections ih =>
    intro writer next formed h
    rw [List.foldlM_cons] at h
    cases first : save.writeSection writer s with
    | error error =>
      rw [first] at h
      cases h
    | ok between =>
      rw [first] at h
      obtain ⟨rfl, formed, passes⟩ := writeSection_ok formed first
      obtain ⟨rfl, formed, rest⟩ := ih formed h
      refine ⟨?_, formed, ?_⟩
      · cases held : save.piece s with
        | none => simp [held]
        | some piece => simp [held]
      · intro s' member
        rcases List.mem_cons.mp member with rfl | later
        · exact passes
        · exact rest s' later

structure ReadsBack (save : GameSave P) (reader : SaveReader) : Prop where
  created : reader.header.createdAtUnixSecs = save.createdAtUnixSecs
  present : ∀ s content, save.stored s = some content →
    writable P s content = true ∧ reader.readSection s.tag = .ok (encodeContent P s content)
  absent : ∀ s, save.stored s = none → reader.readSection s.tag = .error .sectionNotFound

theorem readsBack_of_toBytes {digest : List UInt8 → Digest} {version : String} {save : GameSave P}
    {bytes : List UInt8} (h : save.toBytes digest version = .ok bytes) :
    ∃ reader, SaveReader.openFile digest bytes defaultLimits = .ok reader ∧ save.ReadsBack reader := by
  rw [toBytes] at h
  have start : (SaveWriter.start (save.containerHeader version)).Formed :=
    ⟨List.nodup_nil, by simp [SaveWriter.start]⟩
  split at h
  · cases h
  · rename_i writer wrote
    split at h
    · cases h
    · rename_i finished
      cases h
      obtain ⟨same, formed, passes⟩ := writeSections_ok Section.order start wrote
      obtain ⟨entries, file⟩ := finish_eq_ok finished
      have reopened := file.reopens formed
      refine ⟨_, file.open_eq formed, ?_, ?_, ?_⟩
      · rw [same]
        rfl
      · intro s content held
        refine ⟨passes s (mem_order s) content held, reopened.found (s.tag, encodeContent P s content) ?_⟩
        rw [same]
        apply List.mem_append_right
        rw [List.mem_filterMap]
        exact ⟨s, mem_order s, by rw [piece, held, Option.map_some]⟩
      · intro s held
        apply reopened.missing
        rw [same]
        simp only [SaveWriter.start, List.nil_append, List.mem_map, List.mem_filterMap]
        rintro ⟨_, ⟨s', _, wrote'⟩, tag⟩
        obtain ⟨content, held', rfl⟩ := Option.map_eq_some_iff.mp wrote'
        cases tag_injective tag
        rw [held] at held'
        cases held'

end GameSave

/-! ## Reading it -/

def Sequence.Fits (save : GameSave P) (sequence : Sequence) : Prop :=
  ∀ values, save.stored (.sequence sequence) = some values → values.length ≤ sequence.cap

/-- No sequence of the save is longer than the reader takes. -/
def GameSave.Fits (save : GameSave P) : Prop := ∀ sequence : Sequence, sequence.Fits save

section Reading

variable {save : GameSave P} {reader : SaveReader}

theorem GameSave.ReadsBack.optional (h : save.ReadsBack reader) (single : Single) :
    optionalSection reader single = .ok (save.stored (.single single)) := by
  rw [optionalSection]
  cases held : save.stored (.single single) with
  | none => rw [h.absent _ held]
  | some content =>
    obtain ⟨passes, found⟩ := h.present _ content held
    have read := singleCodec_restores passes []
    rw [List.append_nil] at read
    rw [found]
    simp only [encodeContent, read]

theorem GameSave.ReadsBack.required (h : save.ReadsBack reader) (single : Single)
    {content : Content P (.single single)} (held : save.stored (.single single) = some content) :
    requiredSection reader single = .ok content := by
  obtain ⟨passes, found⟩ := h.present _ content held
  have read := singleCodec_restores passes []
  rw [List.append_nil] at read
  rw [requiredSection, found]
  simp only [encodeContent, read]

theorem GameSave.ReadsBack.bounded (h : save.ReadsBack reader) {sequence : Sequence} (fits : sequence.Fits save) :
    optionalBoundedSeqSection reader sequence = .ok (save.stored (.sequence sequence)) := by
  rw [optionalBoundedSeqSection]
  cases held : save.stored (.sequence sequence) with
  | none =>
    rw [h.absent _ held]
    rfl
  | some values =>
    rw [(h.present _ values held).2]
    simp only [encodeContent]
    rw [deserializeBoundedVec_encodeAll values sequence.cap fun value _ => elementCodec_restores sequence value,
      if_pos (fits values held)]
    rfl

theorem GameSave.ReadsBack.refused (h : save.ReadsBack reader) {sequence : Sequence} (long : ¬ sequence.Fits save) :
    (optionalBoundedSeqSection reader sequence : Except EngineError (Option (List (Element P sequence)))) =
      .error .saveUnreadable := by
  simp only [Sequence.Fits, not_forall] at long
  obtain ⟨values, held, long⟩ := long
  rw [optionalBoundedSeqSection, (h.present _ values held).2]
  simp only [encodeContent]
  rw [deserializeBoundedVec_encodeAll values sequence.cap fun value _ => elementCodec_restores sequence value,
    if_neg long]

theorem GameSave.ReadsBack.fits_of_bounded (h : save.ReadsBack reader) {sequence : Sequence}
    {read : Option (List (Element P sequence))} (ok : optionalBoundedSeqSection reader sequence = .ok read) :
    sequence.Fits save := by
  by_contra long
  cases (h.refused long).symm.trans ok

theorem GameSave.ReadsBack.assemble (h : save.ReadsBack reader) (fits : save.Fits) :
    GameSave.assemble reader save.chargerReservoirs = .ok save := by
  rw [GameSave.assemble, h.required .engineHeader rfl, h.required .view rfl, h.required .playerCarry rfl,
    h.required .entityRegistry rfl, h.required .simulation rfl, h.required .globalState rfl,
    h.required .lightStyleTime rfl]
  simp only [h.optional, h.bounded (fits _)]
  rw [h.created]
  rfl

theorem GameSave.ReadsBack.fits_of_assemble (h : save.ReadsBack reader)
    {chargers : Option (ChargerReservoirsSnapshot P)} {loaded : GameSave P}
    (ok : GameSave.assemble reader chargers = .ok loaded) : save.Fits := by
  rw [GameSave.assemble] at ok
  simp only [h.optional, ok_bind] at ok
  -- the seven required sections
  iterate 7 obtain ⟨_, -, ok⟩ := bind_eq_ok.mp ok
  obtain ⟨_, moverState, ok⟩ := bind_eq_ok.mp ok
  obtain ⟨_, makerChildren, ok⟩ := bind_eq_ok.mp ok
  obtain ⟨_, momentaryDoors, ok⟩ := bind_eq_ok.mp ok
  obtain ⟨_, breakables, ok⟩ := bind_eq_ok.mp ok
  obtain ⟨_, trainHandoverYaw, ok⟩ := bind_eq_ok.mp ok
  obtain ⟨_, carriedEntities, ok⟩ := bind_eq_ok.mp ok
  obtain ⟨_, platrots, ok⟩ := bind_eq_ok.mp ok
  obtain ⟨_, ambients, ok⟩ := bind_eq_ok.mp ok
  obtain ⟨_, switches, ok⟩ := bind_eq_ok.mp ok
  obtain ⟨_, pathStates, ok⟩ := bind_eq_ok.mp ok
  obtain ⟨_, bosses, ok⟩ := bind_eq_ok.mp ok
  intro sequence
  cases sequence with
  | moverState => exact h.fits_of_bounded moverState
  | makerChildren => exact h.fits_of_bounded makerChildren
  | momentaryDoors => exact h.fits_of_bounded momentaryDoors
  | breakables => exact h.fits_of_bounded breakables
  | trainHandoverYaw => exact h.fits_of_bounded trainHandoverYaw
  | carriedEntities => exact h.fits_of_bounded carriedEntities
  | platrots => exact h.fits_of_bounded platrots
  | ambients => exact h.fits_of_bounded ambients
  | switches => exact h.fits_of_bounded switches
  | pathStates => exact h.fits_of_bounded pathStates
  | bosses => exact h.fits_of_bounded bosses

theorem GameSave.ReadsBack.fromBytes (h : save.ReadsBack reader) {digest : List UInt8 → Digest}
    {bytes : List UInt8} (opened : SaveReader.openFile digest bytes defaultLimits = .ok reader) :
    GameSave.fromBytes digest bytes = GameSave.assemble reader save.chargerReservoirs := by
  rw [GameSave.fromBytes, opened]
  simp only [h.optional, ok_bind]
  apply if_neg
  change ¬ (save.chargerReservoirs.any fun chargers => !chargers.withinLimits) = true
  rw [Option.any_eq_true]
  rintro ⟨chargers, held, invalid⟩
  have passes : chargers.withinLimits = true := (h.present (.single .chargerReservoirs) chargers held).1
  rw [passes] at invalid
  cases invalid

end Reading

/-- A written save is loaded again if and only if no sequence is longer than the reader takes. -/
theorem GameSave.load_written_iff {digest : List UInt8 → Digest} {version : String} {save : GameSave P}
    {bytes : List UInt8} (written : save.toBytes digest version = .ok bytes) :
    GameSave.fromBytes digest bytes = .ok save ↔ save.Fits := by
  obtain ⟨reader, opened, h⟩ := readsBack_of_toBytes written
  rw [h.fromBytes opened]
  exact ⟨h.fits_of_assemble, h.assemble⟩

/-! ## More carried entities than the reader takes -/

def byteParts : Parts := ⟨fun _ => UInt8, fun _ => ⟨Codec.byte, Codec.byte_restores⟩, fun _ _ => true⟩

theorem length_zeros : (List.replicate 32 (0 : UInt8)).length = 32 := List.length_replicate

def zeroDigest : Digest := ⟨List.replicate 32 0, length_zeros⟩

def carrying (count : Nat) : GameSave byteParts where
  createdAtUnixSecs := 0
  header := ⟨"map", none, (0 : UInt8)⟩
  view := (0 : UInt8)
  player := (0 : UInt8)
  entities := (0 : UInt8)
  simulation := (0 : UInt8)
  globals := (0 : UInt8)
  lightStyleTime := (0 : UInt8)
  inventory := none
  entityCombat := none
  ai := none
  projectiles := none
  projectileRuntime := none
  rng := none
  moverState := none
  makerChildren := none
  rotatingMovers := none
  momentaryDoors := none
  breakables := none
  teleportState := none
  trainHandoverYaw := none
  platrots := none
  ambients := none
  switches := none
  pathStates := none
  bosses := none
  mapEffects := none
  tanks := none
  chargerReservoirs := none
  carriedEntities := some (List.replicate count (0 : UInt8))

theorem carrying_one_loads :
    ∃ bytes, (carrying 1).toBytes (fun _ => zeroDigest) "0.1.0" = .ok bytes ∧
      GameSave.fromBytes (fun _ => zeroDigest) bytes = .ok (carrying 1) := by
  obtain ⟨bytes, written⟩ := exists_ok
    (show ((carrying 1).toBytes (fun _ => zeroDigest) "0.1.0").isOk = true by decide +kernel)
  refine ⟨bytes, written, (GameSave.load_written_iff written).mpr ?_⟩
  intro sequence values held
  cases sequence with
  | carriedEntities =>
    cases held
    decide
  | moverState | makerChildren | momentaryDoors | breakables | trainHandoverYaw | platrots | ambients | switches
  | pathStates | bosses => cases held

/-- The writer takes 257 carried entities, and the reader 256. -/
theorem carrying_too_many_is_refused :
    ¬ ∀ (save : GameSave byteParts) (bytes : List UInt8),
      save.toBytes (fun _ => zeroDigest) "0.1.0" = .ok bytes →
        GameSave.fromBytes (fun _ => zeroDigest) bytes = .ok save := by
  intro claimed
  obtain ⟨bytes, written⟩ := exists_ok
    (show ((carrying 257).toBytes (fun _ => zeroDigest) "0.1.0").isOk = true by decide +kernel)
  obtain ⟨reader, opened, h⟩ := GameSave.readsBack_of_toBytes written
  have loaded := claimed _ bytes written
  rw [h.fromBytes opened] at loaded
  have fits : (List.replicate 257 (0 : UInt8)).length ≤ maxSnapshotCarriedDefs :=
    h.fits_of_assemble loaded .carriedEntities _ rfl
  rw [List.length_replicate] at fits
  exact absurd fits (by decide)

end OpenHalfLife.Save
