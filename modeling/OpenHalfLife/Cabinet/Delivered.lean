import OpenHalfLife.Cabinet.FileReader

/-! # The bytes a file holds

The content of a stored file is what its parts in the volumes hold, put
together and cleared. As long as no read has failed on the way, a reader has
given a front of it and has the rest before it.
-/

namespace OpenHalfLife.Cabinet

set_option autoImplicit false

open Machine

/-! ## The content -/

section Content

variable (volumes : Nat → List UInt8) (site : FileSite) (descriptor : FileDescriptor)

def openPlace (flags : FileFlags) (volume : Nat) : Option (Place × VolumeHeader) :=
  match headerOf volumes site.layout volume with
  | none => none
  | some header =>
    let flags := inferSplit site descriptor header flags
    match portion site descriptor header flags with
    | .error _ => none
    | .ok (offset, expanded, compressed) =>
      some (⟨flags, volume, offset, if flags.isCompressed then compressed else expanded⟩, header)

def nextPlace (place : Place) : Option Place :=
  if place.volume + 1 < 2 ^ 16 then
    match openPlace volumes site descriptor place.flags (place.volume + 1) with
    | none => none
    | some (next, _) => if next.volumeBytesLeft = 0 then none else some next
  else none

variable {volumes site descriptor}

theorem openPlace_volume {flags : FileFlags} {volume : Nat} {opened : Place × VolumeHeader}
    (h : openPlace volumes site descriptor flags volume = some opened) : opened.1.volume = volume := by
  unfold openPlace at h
  split at h
  · cases h
  · dsimp only at h
    split at h
    · cases h
    · cases h
      rfl

theorem nextPlace_volume {place next : Place} (h : nextPlace volumes site descriptor place = some next) :
    next.volume = place.volume + 1 ∧ next.volume < 2 ^ 16 := by
  unfold nextPlace at h
  split at h
  · split at h
    · cases h
    · rename_i hOpen
      split at h
      · cases h
      · cases h
        have hVolume := openPlace_volume hOpen
        dsimp only at hVolume
        omega
  · cases h

variable (volumes site descriptor)

/-- The stored bytes from a place on; they end where a volume is too short for its part. -/
def storedFrom (place : Place) : List UInt8 :=
  let here := ((volumes place.volume).drop place.cursor).take place.volumeBytesLeft
  if here.length < place.volumeBytesLeft then here
  else match _hNext : nextPlace volumes site descriptor place with
    | none => here
    | some next => here ++ storedFrom next
termination_by 2 ^ 16 - place.volume
decreasing_by
  have hVolume := nextPlace_volume _hNext
  omega

def fileStart : Nat → FileFlags → Nat → Option Place
  | 0, _, _ => none
  | hops + 1, flags, volume =>
    match openPlace volumes site descriptor flags volume with
    | none => none
    | some (place, header) =>
      if site.major ≤ 5 ∧ header.lastFileIndex < site.index then
        fileStart hops place.flags (volume + 1)
      else some place

def clear (flags : FileFlags) (bytes : List UInt8) (seed : UInt32) : List UInt8 :=
  if flags.isObfuscated then deobfuscate bytes seed else bytes

def content : List UInt8 :=
  match fileStart volumes site descriptor (2 ^ 16) descriptor.flags descriptor.volume.toNat with
  | none => []
  | some place =>
    clear descriptor.flags ((storedFrom volumes site descriptor place).take descriptor.storedSize) 0

end Content

section Stored

variable {volumes : Nat → List UInt8} {site : FileSite} {descriptor : FileDescriptor}

def storedNext (volumes : Nat → List UInt8) (site : FileSite) (descriptor : FileDescriptor) (place : Place) :
    List UInt8 :=
  match nextPlace volumes site descriptor place with
  | none => []
  | some next => storedFrom volumes site descriptor next

theorem storedFrom_eq (place : Place) : storedFrom volumes site descriptor place =
    ((volumes place.volume).drop place.cursor).take place.volumeBytesLeft ++
      if (((volumes place.volume).drop place.cursor).take place.volumeBytesLeft).length <
          place.volumeBytesLeft then []
      else storedNext volumes site descriptor place := by
  rw [storedFrom, storedNext]
  split
  · rw [List.append_nil]
  · split
    · rename_i hNext
      rw [hNext, List.append_nil]
    · rename_i hNext
      rw [hNext]

theorem storedFrom_part {place : Place} {bytes : List UInt8}
    (hBytes : bytes <+: (volumes place.volume).drop place.cursor)
    (hLeft : bytes.length ≤ place.volumeBytesLeft) :
    storedFrom volumes site descriptor place = bytes ++ storedFrom volumes site descriptor
      { place with
        cursor := place.cursor + bytes.length
        volumeBytesLeft := place.volumeBytesLeft - bytes.length } := by
  obtain ⟨rest, hRest⟩ := hBytes
  have hHere : ((volumes place.volume).drop place.cursor).take place.volumeBytesLeft =
      bytes ++ rest.take (place.volumeBytesLeft - bytes.length) := by
    rw [← hRest, List.take_append, List.take_of_length_le hLeft]
  have hLater : (volumes place.volume).drop (place.cursor + bytes.length) = rest := by
    rw [← List.drop_drop, ← hRest, List.drop_left]
  have hShort : (bytes ++ rest.take (place.volumeBytesLeft - bytes.length)).length <
      place.volumeBytesLeft ↔ (rest.take (place.volumeBytesLeft - bytes.length)).length <
        place.volumeBytesLeft - bytes.length := by
    rw [List.length_append]
    omega
  rw [storedFrom_eq, storedFrom_eq]
  simp only [hHere, hLater, hShort, List.append_assoc]
  rfl

theorem storedFrom_end {place : Place} (h : place.volumeBytesLeft = 0) :
    storedFrom volumes site descriptor place = storedNext volumes site descriptor place := by
  rw [storedFrom_eq, h]
  simp

theorem deobfuscate_append (front rest : List UInt8) (seed : UInt32) :
    deobfuscate (front ++ rest) seed =
      deobfuscate front seed ++ deobfuscate rest (seed + UInt32.ofNat front.length) := by
  induction front generalizing seed with
  | nil => simp [deobfuscate]
  | cons byte front ih =>
    have hSeed : seed + 1 + UInt32.ofNat front.length = seed + UInt32.ofNat (front.length + 1) := by
      rw [UInt32.ofNat_add, add_assoc, add_comm 1]
      rfl
    rw [List.cons_append, deobfuscate, ih, deobfuscate, List.cons_append, List.length_cons, hSeed]

theorem FileFlags.isObfuscated_withSplit (flags : FileFlags) :
    flags.withSplit.isObfuscated = flags.isObfuscated := by
  have hBit : (flags.bits ||| 1) &&& 2 = flags.bits &&& 2 := by
    apply UInt16.toBitVec_inj.mp
    simp [BitVec.and_or_distrib_right]
  rw [isObfuscated, withSplit, hBit, isObfuscated]

theorem isObfuscated_inferSplit (header : VolumeHeader) (flags : FileFlags) :
    (inferSplit site descriptor header flags).isObfuscated = flags.isObfuscated := by
  unfold inferSplit
  split
  · dsimp only
    split
    · exact flags.isObfuscated_withSplit
    · rfl
  · rfl

end Stored

/-! ## Taking stored bytes -/

section Taking

variable {σ : Type} {source : VolumeSource σ} {volumes : Nat → List UInt8}

/-- The reader has taken `bytes` out of the volumes; the staging buffer apart, nothing else of
it is changed. -/
structure Took (volumes : Nat → List UInt8) (bytes : List UInt8) (r r' : FileReader) : Prop where
  site : r'.site = r.site
  descriptor : r'.descriptor = r.descriptor
  seed : r'.obfuscationSeed = r.obfuscationSeed
  storedLeft : r'.storedLeft = r.storedLeft
  stagingPos : r'.stagingPos = r.stagingPos
  obfuscated : r'.place.flags.isObfuscated = r.place.flags.isObfuscated
  stored : storedFrom volumes r.site r.descriptor r.place =
    bytes ++ storedFrom volumes r.site r.descriptor r'.place

theorem Took.refl (r : FileReader) : Took volumes [] r r := ⟨rfl, rfl, rfl, rfl, rfl, rfl, rfl⟩

theorem Took.trans {front rest : List UInt8} {r r' r'' : FileReader} (h : Took volumes front r r')
    (h' : Took volumes rest r' r'') : Took volumes (front ++ rest) r r'' where
  site := h'.site.trans h.site
  descriptor := h'.descriptor.trans h.descriptor
  seed := h'.seed.trans h.seed
  storedLeft := h'.storedLeft.trans h.storedLeft
  stagingPos := h'.stagingPos.trans h.stagingPos
  obfuscated := h'.obfuscated.trans h.obfuscated
  stored := by
    have hStored := h'.stored
    rw [h.site, h.descriptor] at hStored
    rw [h.stored, hStored, List.append_assoc]

theorem advanceVolume_ensures (r : FileReader) (t : σ) :
    Ensures advanceVolume (r, t)
      (fun _ s => r.place.volume + 1 < 2 ^ 16 ∧
        s = ({ r with hops := r.hops + 1, place := { r.place with volume := r.place.volume + 1 } }, t))
      fun _ _ => True := by
  simp only [advanceVolume, modifyReader, ensures_bind, ensures_get, ensures_rejectIf, ensures_modify]
  refine ⟨fun _ => trivial, fun _ => ⟨fun _ => trivial, fun _ => ⟨fun _ => trivial, fun hVolume => ?_⟩⟩⟩
  exact ⟨fun _ => trivial, fun _ => ⟨by omega, trivial⟩⟩

theorem openVolume_ensures (hReads : source.Reads volumes) (volume : Nat) (r : FileReader) (t : σ) :
    Ensures (openVolume source volume) (r, t)
      (fun header s => ∃ place, openPlace volumes r.site r.descriptor r.place.flags volume = some (place, header) ∧
        s.1 = { r with place := place })
      fun _ _ => True := by
  simp only [openVolume, modifyReader, onSource, ensures_bind, ensures_get, ensures_rejectIf, ensures_zoom]
  refine ⟨fun _ => trivial, fun _ => ?_⟩
  refine (readVolumeHeader_ensures hReads volume r.site.layout t).mono ?_ fun _ _ _ => trivial
  intro header t' hHeader
  simp only [ensures_modify, ensures_ofExcept, ensures_pure]
  refine ⟨fun sizes hPortion => ?_, fun _ _ => trivial⟩
  obtain ⟨offset, expanded, compressed⟩ := sizes
  refine ⟨_, ?_, rfl⟩
  rw [openPlace, hHeader]
  dsimp only
  rw [hPortion]

theorem isObfuscated_openPlace {site : FileSite} {descriptor : FileDescriptor} {flags : FileFlags}
    {volume : Nat} {opened : Place × VolumeHeader}
    (h : openPlace volumes site descriptor flags volume = some opened) :
    opened.1.flags.isObfuscated = flags.isObfuscated := by
  unfold openPlace at h
  split at h
  · cases h
  · dsimp only at h
    split at h
    · cases h
    · cases h
      exact isObfuscated_inferSplit _ _

theorem enterVolume_ensures (hReads : source.Reads volumes) (r : FileReader) (t : σ) :
    Ensures (enterVolume source) (r, t)
      (fun _ s => Took volumes [] r s.1 ∧ s.1.staging = r.staging ∧ 0 < s.1.place.volumeBytesLeft)
      fun _ _ => True := by
  unfold enterVolume
  rw [ensures_bind, ensures_get]
  dsimp only
  rw [ensures_ite]
  refine ⟨fun hEmpty => ?_, fun hLeft => ⟨.refl r, rfl, Nat.pos_of_ne_zero hLeft⟩⟩
  rw [ensures_bind]
  refine (advanceVolume_ensures r t).mono ?_ fun _ _ _ => trivial
  rintro _ _ ⟨hVolume, rfl⟩
  rw [ensures_bind, ensures_get, ensures_bind]
  refine (openVolume_ensures hReads _ _ t).mono ?_ fun _ _ _ => trivial
  rintro header ⟨r', t'⟩ ⟨place, hPlace, rfl⟩
  rw [ensures_bind, ensures_get, ensures_rejectIf]
  refine ⟨fun _ => trivial, fun hLeft => ?_⟩
  dsimp only at hPlace hLeft ⊢
  have hNext : nextPlace volumes r.site r.descriptor r.place = some place := by
    rw [nextPlace, if_pos hVolume, hPlace]
    exact if_neg hLeft
  refine ⟨⟨rfl, rfl, rfl, rfl, rfl, isObfuscated_openPlace hPlace, ?_⟩, rfl, Nat.pos_of_ne_zero hLeft⟩
  rw [storedFrom_end hEmpty, storedNext, hNext]
  rfl

theorem readPart_ensures (hReads : source.Reads volumes) (room : Nat) (r : FileReader) (t : σ) :
    Ensures (readPart source room) (r, t)
      (fun bytes s => bytes ≠ [] ∧ bytes.length ≤ room ∧ Took volumes bytes r s.1 ∧
        s.1.staging = overwrite r.staging (r.staging.length - room) bytes)
      fun _ _ => True := by
  unfold readPart
  rw [ensures_bind]
  refine (enterVolume_ensures hReads r t).mono ?_ fun _ _ _ => trivial
  rintro _ ⟨r', t'⟩ ⟨hTook, hStaging, hLeft⟩
  dsimp only at hTook hStaging hLeft
  rw [ensures_bind, ensures_get]
  dsimp only
  rw [ensures_bind, onSource, ensures_zoom]
  refine (request_ensures hReads _ _ _ t').mono ?_ fun _ _ _ => trivial
  rintro bytes t'' ⟨hBytes, hLength⟩
  simp only [modifyReader, ensures_bind, ensures_rejectIf, ensures_modify, ensures_pure]
  refine ⟨fun _ => trivial, fun hSome => ⟨fun _ => trivial, fun _ => ⟨hSome, by omega, ?_, ?_⟩⟩⟩
  · have hPart : Took volumes bytes r' { r' with
        staging := overwrite r'.staging (r'.staging.length - room) bytes
        place := { r'.place with
          cursor := r'.place.cursor + bytes.length
          volumeBytesLeft := r'.place.volumeBytesLeft - bytes.length } } :=
      ⟨rfl, rfl, rfl, rfl, rfl, rfl, storedFrom_part hBytes (by omega)⟩
    exact hTook.trans hPart
  · rw [hStaging]

theorem readParts_ensures (hReads : source.Reads volumes) (rounds room : Nat) (r : FileReader) (t : σ)
    (hRounds : room ≤ rounds) (hRoom : room ≤ r.staging.length) :
    Ensures (readParts source rounds room) (r, t)
      (fun _ s => ∃ bytes, bytes.length = room ∧ Took volumes bytes r s.1 ∧
        s.1.staging = r.staging.take (r.staging.length - room) ++ bytes)
      fun _ _ => True := by
  induction rounds generalizing room r t with
  | zero =>
    cases Nat.le_zero.mp hRounds
    exact ⟨[], rfl, .refl r, by simp⟩
  | succ rounds ih =>
    rw [readParts, ensures_ite]
    refine ⟨fun hZero => ?_, fun hSome => ?_⟩
    · cases hZero
      exact ⟨[], rfl, .refl r, by simp⟩
    · rw [ensures_bind]
      refine (readPart_ensures hReads room r t).mono ?_ fun _ _ _ => trivial
      rintro bytes ⟨r', t'⟩ ⟨hBytes, hLength, hTook, hStaging⟩
      dsimp only at hTook hStaging
      have hPos := List.length_pos_iff.mpr hBytes
      have hSize : r'.staging.length = r.staging.length := by
        rw [hStaging, overwrite, List.length_append, List.length_append, List.length_take, List.length_drop]
        omega
      refine (ih (room - bytes.length) r' t' (by omega) (by omega)).mono ?_ fun _ _ _ => trivial
      rintro _ ⟨r'', t''⟩ ⟨rest, hRest, hTook', hStaging'⟩
      dsimp only at hTook' hStaging'
      refine ⟨bytes ++ rest, by rw [List.length_append]; omega, hTook.trans hTook', ?_⟩
      have hFront : r.staging.length - room + bytes.length = r'.staging.length - (room - bytes.length) := by omega
      rw [hStaging', ← hFront, hStaging, overwrite, ← List.append_assoc]
      congr 1
      rw [List.take_left']
      rw [List.length_append, List.length_take]
      omega

/-- What the reader has before it: the staged bytes it has not given yet, and the stored ones. -/
def ahead (volumes : Nat → List UInt8) (r : FileReader) : List UInt8 :=
  r.staging.drop r.stagingPos ++
    clear r.place.flags ((storedFrom volumes r.site r.descriptor r.place).take r.storedLeft)
      r.obfuscationSeed

theorem readStored_ensures (hReads : source.Reads volumes) (r : FileReader) (t : σ) :
    Ensures (readStored source) (r, t)
      (fun _ s => ∃ bytes, bytes.length = r.staging.length ∧
        s.1.staging = clear r.place.flags bytes r.obfuscationSeed ∧
        s.1.stagingPos = r.stagingPos ∧ s.1.storedLeft = r.storedLeft ∧
        ∀ count, clear r.place.flags ((storedFrom volumes r.site r.descriptor r.place).take
            (bytes.length + count)) r.obfuscationSeed =
          clear r.place.flags bytes r.obfuscationSeed ++ clear s.1.place.flags
            ((storedFrom volumes s.1.site s.1.descriptor s.1.place).take count) s.1.obfuscationSeed)
      fun _ _ => True := by
  unfold readStored
  rw [ensures_bind, ensures_get]
  dsimp only
  rw [ensures_bind]
  refine (readParts_ensures hReads _ _ r t (Nat.le_refl _) (Nat.le_refl _)).mono ?_ fun _ _ _ => trivial
  rintro _ ⟨r', t'⟩ ⟨bytes, hLength, hTook, hStaging⟩
  dsimp only at hTook hStaging
  rw [Nat.sub_self, List.take_zero, List.nil_append] at hStaging
  rw [modifyReader, ensures_modify]
  have hTake (count : Nat) : (storedFrom volumes r.site r.descriptor r.place).take (bytes.length + count) =
      bytes ++ (storedFrom volumes r'.site r'.descriptor r'.place).take count := by
    rw [hTook.stored, List.take_length_add_append, hTook.site, hTook.descriptor]
  refine ⟨bytes, hLength, ?_⟩
  cases hObfuscated : r.place.flags.isObfuscated with
  | true =>
    have hObfuscated' := hTook.obfuscated.trans hObfuscated
    rw [if_pos hObfuscated']
    refine ⟨?_, hTook.stagingPos, hTook.storedLeft, fun count => ?_⟩
    · rw [clear, if_pos hObfuscated, hStaging, hTook.seed]
    · simp only [clear, hObfuscated, hObfuscated', if_true, hTake, deobfuscate_append, hStaging, hTook.seed]
  | false =>
    have hObfuscated' := hTook.obfuscated.trans hObfuscated
    rw [if_neg (by rw [hObfuscated']; exact Bool.false_ne_true)]
    refine ⟨?_, hTook.stagingPos, hTook.storedLeft, fun count => ?_⟩
    · rw [clear, hObfuscated, hStaging]
      rfl
    · simp only [clear, hObfuscated, hObfuscated', Bool.false_eq_true, if_false, hTake]

theorem refill_ensures (hReads : source.Reads volumes) (r : FileReader) (t : σ)
    (hGiven : r.staging.length ≤ r.stagingPos) :
    Ensures (refill source) (r, t) (fun _ s => ahead volumes s.1 = ahead volumes r) fun _ _ => True := by
  have hNone : r.staging.drop r.stagingPos = [] := List.drop_eq_nil_of_le hGiven
  unfold refill
  rw [ensures_bind, ensures_get]
  dsimp only
  rw [ensures_ite]
  refine ⟨fun _ => rfl, fun _ => ?_⟩
  rw [ensures_bind, modifyReader, ensures_modify, ensures_bind]
  refine (readStored_ensures hReads _ t).mono ?_ fun _ _ _ => trivial
  rintro _ ⟨r', t'⟩ ⟨bytes, hLength, hStaging, _, hLeft, hStored⟩
  dsimp only at hLength hStaging hLeft hStored
  rw [List.length_replicate] at hLength
  rw [ensures_bind, modifyReader, ensures_modify, ensures_pure]
  have hChunk : r.chunk ≤ r.storedLeft := Nat.min_le_left _ _
  have hSplit := hStored (r.storedLeft - r.chunk)
  rw [hLength, Nat.add_sub_cancel' hChunk] at hSplit
  simp only [ahead, List.drop_zero, hNone, List.nil_append]
  rw [hStaging, hLeft, hSplit]

theorem deliver_ensures (room : Nat) (r : FileReader) (t : σ) :
    Ensures (deliver room) (r, t) (fun bytes s => ahead volumes r = bytes ++ ahead volumes s.1)
      fun _ _ => True := by
  simp only [deliver, modifyReader, ensures_bind, ensures_get, ensures_modify, ensures_rejectIf, ensures_pure]
  refine ⟨fun _ => trivial, fun _ => ⟨fun _ => trivial, fun _ => ?_⟩⟩
  simp only [ahead, ← List.append_assoc]
  congr 1
  rw [← List.drop_drop]
  exact (List.prefix_append_drop (List.take_prefix room _))

theorem read_ensures (hReads : source.Reads volumes) (room : Nat) (r : FileReader) (t : σ) :
    Ensures (read source room) (r, t) (fun bytes s => ahead volumes r = bytes ++ ahead volumes s.1)
      fun _ _ => True := by
  unfold read
  rw [ensures_ite]
  refine ⟨fun _ => rfl, fun _ => ?_⟩
  rw [ensures_bind, ensures_get]
  dsimp only
  rw [ensures_ite]
  refine ⟨fun _ => deliver_ensures room r t, fun hGiven => ?_⟩
  rw [ensures_bind]
  refine (refill_ensures hReads r t (by omega)).mono ?_ fun _ _ _ => trivial
  rintro more ⟨r', t'⟩ hAhead
  rw [ensures_ite, ← hAhead]
  exact ⟨fun _ => deliver_ensures room r' t', fun _ => rfl⟩

end Taking

end OpenHalfLife.Cabinet
