import Mathlib.Algebra.Order.Floor.Defs
import Mathlib.Data.Rat.Floor
import OpenHalfLife.Formats.Slice
import OpenHalfLife.World.AtlasTiles

/-! # The first image of the lightmap atlas

When a map is loaded the atlas is composed of the first layer of every tile.
Whenever the light styles change it is blended from all the layers.
-/

namespace OpenHalfLife.World

set_option autoImplicit false

structure LightFace where
  lightmapOffset : Int32
  styles : Fin 4 → UInt8
  special : Bool
  extents : Option (UInt32 × UInt32)

def lightmapSamples (lighting : Option Formats.Slice) (offset : Int) (count : Nat) : Option (List UInt8) :=
  if offset < 0 then none
  else
    lighting.bind fun lump =>
      if 2 ^ 64 ≤ count * 3 then none
      else (Formats.subSlice lump.bytes offset.toNat (count * 3)).toOption

def rampSamples (ramp : UInt8 → UInt8) : List UInt8 → List UInt8
  | r :: g :: b :: rest => ramp r :: ramp g :: ramp b :: 255 :: rampSamples ramp rest
  | _ => []

namespace LightFace

def isLit (face : LightFace) : Bool := 0 ≤ face.lightmapOffset.toInt ∧ face.styles 0 ≠ styleNone ∧ !face.special

def sampleCount (face : LightFace) : Nat := face.extents.elim 0 fun extents => extents.1.toNat * extents.2.toNat

def layer (face : LightFace) (lighting : Option Formats.Slice) (ramp : UInt8 → UInt8) (slot : Fin 4) :
    Option (List UInt8) :=
  let sampleBytes := face.sampleCount * 3
  let extra := slot.val * sampleBytes
  if face.styles slot = styleNone then none
  else if 2 ^ 64 ≤ sampleBytes ∨ 2 ^ 31 ≤ extra ∨ 2 ^ 31 ≤ face.lightmapOffset.toInt + extra then none
  else (lightmapSamples lighting (face.lightmapOffset.toInt + extra) face.sampleCount).map (rampSamples ramp)

def insert (face : LightFace) (lighting : Option Formats.Slice) (packer : ShelfPacker) :
    Option ShelfRect × ShelfPacker :=
  match face.extents with
  | none => (none, packer)
  | some (width, height) =>
    match lightmapSamples lighting face.lightmapOffset.toInt face.sampleCount with
    | none => (none, packer)
    | some _ => packer.insert width height

def placeLightmap (face : LightFace) (lighting : Option Formats.Slice) (ramp : UInt8 → UInt8) (packer : ShelfPacker) :
    Option LightTile × ShelfPacker :=
  let (rect, packer) := face.insert lighting packer
  (rect.map fun rect => ⟨rect, face.styles, face.layer lighting ramp⟩, packer)

end LightFace

structure Lighting where
  packer : ShelfPacker
  atlasPixels : List (ShelfRect × List UInt8)
  lightTiles : List LightTile

def Lighting.add (lighting : Option Formats.Slice) (ramp : UInt8 → UInt8) (light : Lighting) (face : LightFace) : Lighting :=
  if face.isLit then
    let (placement, packer) := face.placeLightmap lighting ramp light.packer
    match placement with
    | none => { light with packer }
    | some tile =>
      { packer
        atlasPixels := light.atlasPixels ++ ((tile.layers 0).map fun pixels => (tile.rect, pixels)).toList
        lightTiles := light.lightTiles ++ [tile] }
  else light

def lightmapAtlasWidth : UInt32 := 1024

def lightmapAtlasMaxHeight : UInt32 := 4096

structure Lightmaps where
  atlas : TextureImage
  whiteTile : ShelfRect
  lightTiles : List LightTile

def buildLightmaps (lighting : Option Formats.Slice) (ramp : UInt8 → UInt8) (faces : List LightFace) :
    Option (Except WorldError Lightmaps) :=
  match (ShelfPacker.new lightmapAtlasWidth lightmapAtlasMaxHeight 1).insert 1 1 with
  | (none, _) => some (.error .limitExceeded)
  | (some white, packer) =>
    let light := faces.foldl (Lighting.add lighting ramp) ⟨packer, [(white, [255, 255, 255, 255])], []⟩
    (composeAtlas light.packer light.atlasPixels).map fun composed =>
      composed.map fun atlas => ⟨atlas, white, light.lightTiles⟩

def byteOf (value : Rat) : UInt8 := UInt8.ofNat ⌊value⌋.toNat

/-! ## The blend at compiled intensity -/

theorem exists_sample {samples : List UInt8} {count : Nat} (h : samples.length = (count + 1) * 3) :
    ∃ r g b rest, samples = r :: g :: b :: rest := by
  rcases samples with _ | ⟨r, _ | ⟨g, _ | ⟨b, rest⟩⟩⟩
  · simp at h
  · simp only [List.length_cons, List.length_nil] at h
    omega
  · simp only [List.length_cons, List.length_nil] at h
    omega
  · exact ⟨r, g, b, rest, rfl⟩

theorem length_rampSamples (ramp : UInt8 → UInt8) {samples : List UInt8} {count : Nat} (h : samples.length = count * 3) :
    (rampSamples ramp samples).length = count * 4 := by
  induction count generalizing samples with
  | zero =>
    rw [Nat.zero_mul] at h ⊢
    rw [List.eq_nil_of_length_eq_zero h]
    rfl
  | succ count ih =>
    obtain ⟨r, g, b, rest, rfl⟩ := exists_sample h
    rw [rampSamples]
    simp only [List.length_cons] at h ⊢
    rw [ih (by omega)]
    omega

theorem lightmapSamples_length {lighting : Option Formats.Slice} {offset : Int} {count : Nat} {samples : List UInt8}
    (h : lightmapSamples lighting offset count = some samples) : samples.length = count * 3 := by
  unfold lightmapSamples at h
  split at h
  · cases h
  obtain ⟨lump, -, hLump⟩ := Option.bind_eq_some_iff.mp h
  split at hLump
  · cases hLump
  cases hSlice : Formats.subSlice lump.bytes offset.toNat (count * 3) with
  | error error =>
    rw [hSlice] at hLump
    cases hLump
  | ok bytes =>
    rw [hSlice] at hLump
    obtain rfl := Option.some.inj hLump
    exact (Formats.drop_of_subSlice hSlice).1

namespace LightFace

variable {face : LightFace} {lighting : Option Formats.Slice} {ramp : UInt8 → UInt8}

theorem length_layer {slot : Fin 4} {pixels : List UInt8} (h : face.layer lighting ramp slot = some pixels) :
    pixels.length = face.sampleCount * 4 := by
  unfold layer at h
  dsimp only at h
  split at h
  · cases h
  split at h
  · cases h
  obtain ⟨samples, hSamples, rfl⟩ := Option.map_eq_some_iff.mp h
  exact length_rampSamples ramp (lightmapSamples_length hSamples)

theorem count_small {offset : Int} {count : Nat} {samples : List UInt8} (hOffset : 0 ≤ offset)
    (h : lightmapSamples lighting offset count = some samples) : ¬2 ^ 64 ≤ count * 3 := by
  unfold lightmapSamples at h
  rw [if_neg hOffset.not_gt] at h
  obtain ⟨lump, -, hLump⟩ := Option.bind_eq_some_iff.mp h
  split at hLump
  · cases hLump
  · assumption

variable (ramp) in
theorem exists_layer {packer : ShelfPacker} {rect : ShelfRect} (hLit : face.isLit = true)
    (hRoom : (face.insert lighting packer).1 = some rect) : ∃ pixels, face.layer lighting ramp 0 = some pixels := by
  obtain ⟨hOffset, hStyle, -⟩ := of_decide_eq_true hLit
  have hWide := face.lightmapOffset.toInt_lt
  unfold insert at hRoom
  split at hRoom
  · cases hRoom
  split at hRoom
  · cases hRoom
  rename_i samples hSamples
  have hCount := count_small hOffset hSamples
  refine ⟨rampSamples ramp samples, ?_⟩
  unfold layer
  dsimp only
  rw [if_neg hStyle, if_neg (by simp only [Fin.val_zero, Nat.zero_mul]; omega), Fin.val_zero, Nat.zero_mul,
    Nat.cast_zero, add_zero, hSamples]
  rfl

/-- A colour of a texel in a style, without light if the face does not have the style. -/
def shade (face : LightFace) (lighting : Option Formats.Slice) (ramp : UInt8 → UInt8) (slot : Fin 4)
    (texel channel : Nat) : Nat :=
  ((face.layer lighting ramp slot).bind fun pixels => pixels[texel * 4 + channel]?).elim 0 UInt8.toNat

/-- Nothing is added to the first layer that could still be seen. -/
def FirstLayerShows (face : LightFace) (lighting : Option Formats.Slice) (ramp : UInt8 → UInt8) : Prop :=
  ∀ texel < face.sampleCount, ∀ channel < 3, face.shade lighting ramp 0 texel channel = 255 ∨
    ∀ slot ≠ 0, face.shade lighting ramp slot texel channel = 0

end LightFace

def placedFaces (lighting : Option Formats.Slice) : List LightFace → ShelfPacker → List LightFace
  | [], _ => []
  | face :: faces, packer =>
    if face.isLit then
      let (rect, packer) := face.insert lighting packer
      rect.toList.map (fun _ => face) ++ placedFaces lighting faces packer
    else placedFaces lighting faces packer

/-! ## A tile at compiled intensity -/

theorem alpha_rampSamples (ramp : UInt8 → UInt8) {samples : List UInt8} {count texel : Nat}
    (h : samples.length = count * 3) (hTexel : texel < count) : (rampSamples ramp samples)[texel * 4 + 3]? = some 255 := by
  induction count generalizing samples texel with
  | zero => exact absurd hTexel (Nat.not_lt_zero _)
  | succ count ih =>
    obtain ⟨r, g, b, rest, rfl⟩ := exists_sample h
    rw [rampSamples]
    simp only [List.length_cons] at h
    cases texel with
    | zero => rfl
    | succ texel =>
      rw [Nat.succ_mul, Nat.add_right_comm]
      exact ih (by omega) (Nat.lt_of_succ_lt_succ hTexel)

namespace LightFace

variable {face : LightFace} {lighting : Option Formats.Slice} {ramp : UInt8 → UInt8} {texel : Nat}

theorem alpha_layer {slot : Fin 4} {pixels : List UInt8} (h : face.layer lighting ramp slot = some pixels)
    (hTexel : texel < face.sampleCount) : pixels[texel * 4 + 3]? = some 255 := by
  unfold layer at h
  dsimp only at h
  split at h
  · cases h
  split at h
  · cases h
  obtain ⟨samples, hSamples, rfl⟩ := Option.map_eq_some_iff.mp h
  exact alpha_rampSamples ramp (lightmapSamples_length hSamples) hTexel

theorem shade_lt (slot : Fin 4) (channel : Nat) : face.shade lighting ramp slot texel channel < 256 := by
  unfold shade
  cases (face.layer lighting ramp slot).bind fun pixels => pixels[texel * 4 + channel]? with
  | none => decide
  | some byte => exact byte.toNat_lt

theorem getElem?_layer {slot : Fin 4} {pixels : List UInt8} (h : face.layer lighting ramp slot = some pixels)
    (hTexel : texel < face.sampleCount) {channel : Nat} (hChannel : channel < 4) :
    pixels[texel * 4 + channel]? = some (UInt8.ofNat (face.shade lighting ramp slot texel channel)) := by
  have hLength := length_layer h
  obtain ⟨byte, hThere⟩ : ∃ byte, pixels[texel * 4 + channel]? = some byte :=
    ⟨_, List.getElem?_eq_getElem (by omega)⟩
  rw [shade, h, Option.bind_some, hThere]
  exact congrArg some (UInt8.ofNat_toNat).symm

theorem texel_layer {slot : Fin 4} {pixels : List UInt8} (h : face.layer lighting ramp slot = some pixels)
    (hTexel : texel < face.sampleCount) :
    (pixels.drop (texel * 4)).take 4 =
      [UInt8.ofNat (face.shade lighting ramp slot texel 0), UInt8.ofNat (face.shade lighting ramp slot texel 1),
        UInt8.ofNat (face.shade lighting ramp slot texel 2), 255] := by
  refine List.ext_getElem? fun i => ?_
  by_cases hIn : i < 4
  · rw [List.getElem?_take_of_lt hIn, List.getElem?_drop]
    have hAlpha := alpha_layer h hTexel
    have hColour (channel : Nat) (hChannel : channel < 4) := getElem?_layer h hTexel hChannel
    obtain rfl | rfl | rfl | rfl : i = 0 ∨ i = 1 ∨ i = 2 ∨ i = 3 := by omega
    · exact hColour 0 (by decide)
    · exact hColour 1 (by decide)
    · exact hColour 2 (by decide)
    · exact hAlpha
  · rw [List.getElem?_eq_none (by rw [List.length_take]; omega), List.getElem?_eq_none (by simpa using hIn)]

theorem styles_of_layer {slot : Fin 4} {pixels : List UInt8} (h : face.layer lighting ramp slot = some pixels) :
    face.styles slot ≠ styleNone := by
  intro hNone
  unfold layer at h
  rw [if_pos hNone] at h
  cases h

theorem shade_none {slot : Fin 4} (h : face.layer lighting ramp slot = none) (channel : Nat) :
    face.shade lighting ramp slot texel channel = 0 := by
  rw [shade, h]
  rfl

def total (face : LightFace) (lighting : Option Formats.Slice) (ramp : UInt8 → UInt8) (slots : List (Fin 4))
    (texel channel : Nat) : Nat :=
  (slots.map fun slot => face.shade lighting ramp slot texel channel).sum

theorem total_cons (slot : Fin 4) (slots : List (Fin 4)) (channel : Nat) :
    face.total lighting ramp (slot :: slots) texel channel =
      face.shade lighting ramp slot texel channel + face.total lighting ramp slots texel channel :=
  List.sum_cons

def tile (face : LightFace) (lighting : Option Formats.Slice) (ramp : UInt8 → UInt8) (rect : ShelfRect) : LightTile :=
  ⟨rect, face.styles, face.layer lighting ramp⟩

variable {rect : ShelfRect} {row col : Nat}

theorem blendSlot_none {slot : Fin 4} (h : face.layer lighting ramp slot = none) (accum : Option (Rat × Rat × Rat)) :
    (face.tile lighting ramp rect).blendSlot (fun _ => (1 : Rat)) row col accum slot = accum := by
  unfold LightTile.blendSlot
  dsimp only [tile]
  rw [h]
  split <;> rfl

theorem blendSlot_some {slot : Fin 4} {pixels : List UInt8} (h : face.layer lighting ramp slot = some pixels)
    (hTexel : row * rect.width + col < face.sampleCount) (accum : Option (Rat × Rat × Rat)) :
    (face.tile lighting ramp rect).blendSlot (fun _ => (1 : Rat)) row col accum slot =
      some ((accum.getD (0, 0, 0)).1 + face.shade lighting ramp slot (row * rect.width + col) 0,
        (accum.getD (0, 0, 0)).2.1 + face.shade lighting ramp slot (row * rect.width + col) 1,
        (accum.getD (0, 0, 0)).2.2 + face.shade lighting ramp slot (row * rect.width + col) 2) := by
  have hByte (channel : Nat) : (UInt8.ofNat (face.shade lighting ramp slot (row * rect.width + col) channel)).toNat =
      face.shade lighting ramp slot (row * rect.width + col) channel :=
    Nat.mod_eq_of_lt (shade_lt slot channel)
  unfold LightTile.blendSlot
  dsimp only [tile]
  rw [if_neg (styles_of_layer h), h]
  dsimp only
  rw [texel_layer h hTexel]
  dsimp only
  rw [hByte, hByte, hByte]
  have hWeight : Scalar.maximum (1 : Rat) 0 = 1 := rfl
  rw [hWeight]
  have hOne (a b : Rat) : a + b * 1 = a + b := by rw [mul_one]
  exact congrArg some (Prod.ext (hOne _ _) (Prod.ext (hOne _ _) (hOne _ _)))

theorem foldl_blendSlot (hTexel : row * rect.width + col < face.sampleCount) (slots : List (Fin 4)) (r g b : Nat) :
    slots.foldl ((face.tile lighting ramp rect).blendSlot (fun _ => (1 : Rat)) row col)
        (some ((r : Rat), (g : Rat), (b : Rat))) =
      some (((r + face.total lighting ramp slots (row * rect.width + col) 0 : Nat) : Rat),
        ((g + face.total lighting ramp slots (row * rect.width + col) 1 : Nat) : Rat),
        ((b + face.total lighting ramp slots (row * rect.width + col) 2 : Nat) : Rat)) := by
  induction slots generalizing r g b with
  | nil => rfl
  | cons slot slots ih =>
    rw [List.foldl_cons, total_cons, total_cons, total_cons]
    cases hLayer : face.layer lighting ramp slot with
    | none =>
      rw [blendSlot_none hLayer, ih, shade_none hLayer, shade_none hLayer, shade_none hLayer, Nat.zero_add, Nat.zero_add,
        Nat.zero_add]
    | some pixels =>
      rw [blendSlot_some hLayer hTexel]
      dsimp only [Option.getD_some]
      rw [← Nat.add_assoc, ← Nat.add_assoc, ← Nat.add_assoc, ← ih]
      rw [Nat.cast_add, Nat.cast_add, Nat.cast_add]

theorem byteOf_clampByte (value : Nat) : byteOf (clampByte (value : Rat)) = UInt8.ofNat (min value 255) := by
  have hLow : ¬((value : Rat) < 0) := not_lt.mpr (Nat.cast_nonneg value)
  unfold clampByte
  rw [if_neg hLow]
  by_cases hHigh : 255 < value
  · rw [if_pos (Nat.cast_lt.mpr hHigh), min_eq_right hHigh.le]
    rfl
  · rw [if_neg fun h => hHigh (Nat.cast_lt.mp h), min_eq_left (not_lt.mp hHigh), byteOf]
    have hFloor : ⌊(value : Rat)⌋ = (value : Int) := Int.floor_natCast value
    rw [hFloor, Int.toNat_natCast]

theorem sample_tile {pixels : List UInt8} (hFirst : face.layer lighting ramp 0 = some pixels)
    (hTexel : row * rect.width + col < face.sampleCount) :
    (face.tile lighting ramp rect).sample (fun _ => (1 : Rat)) byteOf row col =
      some ⟨UInt8.ofNat (min (face.total lighting ramp (List.finRange 4) (row * rect.width + col) 0) 255),
        UInt8.ofNat (min (face.total lighting ramp (List.finRange 4) (row * rect.width + col) 1) 255),
        UInt8.ofNat (min (face.total lighting ramp (List.finRange 4) (row * rect.width + col) 2) 255), 255⟩ := by
  have hSlots : List.finRange 4 = 0 :: [1, 2, 3] := rfl
  have hStart : (face.tile lighting ramp rect).blendSlot (fun _ => (1 : Rat)) row col none 0 =
      some ((face.shade lighting ramp 0 (row * rect.width + col) 0 : Rat),
        (face.shade lighting ramp 0 (row * rect.width + col) 1 : Rat),
        (face.shade lighting ramp 0 (row * rect.width + col) 2 : Rat)) := by
    rw [blendSlot_some hFirst hTexel]
    exact congrArg some (Prod.ext (zero_add _) (Prod.ext (zero_add _) (zero_add _)))
  rw [LightTile.sample, hSlots, List.foldl_cons, hStart, foldl_blendSlot hTexel, Option.map_some]
  dsimp only
  rw [byteOf_clampByte, byteOf_clampByte, byteOf_clampByte, ← total_cons, ← total_cons, ← total_cons]

end LightFace

/-! ## Two images of the same tiles -/

section Images

theorem exists_place {width height i : Nat} (h : i < width * height * 4) :
    ∃ x y channel, x < width ∧ channel < 4 ∧ i = place width x y channel := by
  have hWide : 0 < width := by
    rcases Nat.eq_zero_or_pos width with rfl | hWide
    · rw [Nat.zero_mul, Nat.zero_mul] at h
      exact absurd h (Nat.not_lt_zero _)
    · exact hWide
  refine ⟨i / 4 % width, i / 4 / width, i % 4, Nat.mod_lt _ hWide, Nat.mod_lt _ (by decide), ?_⟩
  have hCell := Nat.div_add_mod (i / 4) width
  rw [Nat.mul_comm] at hCell
  rw [place, hCell]
  omega

variable {T : Type} {width height padding : Nat} {rect : T → ShelfRect} {tiles : List T}
  {value : T → Nat → Nat → Nat → Option UInt8} {patch : T → Nat → Option UInt8} {paint : T → List UInt8 → List UInt8}
  {value' : T → Nat → Nat → Nat → Option UInt8} {patch' : T → Nat → Option UInt8} {paint' : T → List UInt8 → List UInt8}

theorem getElem?_unpainted (h : ∀ tile ∈ tiles, PaintsTile width height (rect tile) (value tile) (patch tile) (paint tile))
    {x y channel : Nat} (hX : x < width) (hChannel : channel < 4) (hAway : ∀ tile ∈ tiles, ¬(rect tile).Covers x y) :
    (tiles.foldl (fun rgba tile => paint tile rgba) (blank width height))[place width x y channel]? =
      (blank width height)[place width x y channel]? := by
  have hAll := (Paints.foldl fun tile hTile => (h tile hTile).paints).getElem?_eq (blank width height)
    List.length_replicate (place width x y channel)
  have hNone : lastPatch patch tiles (place width x y channel) = none :=
    lastPatch_eq_none fun tile hTile => (h tile hTile).outside x y channel hX hChannel (hAway tile hTile)
  rw [hAll, hNone, Option.none_or]

theorem painted_eq_iff
    (h : ∀ tile ∈ tiles, PaintsTile width height (rect tile) (value tile) (patch tile) (paint tile))
    (h' : ∀ tile ∈ tiles, PaintsTile width height (rect tile) (value' tile) (patch' tile) (paint' tile))
    (hApart : (tiles.map rect).Pairwise (ShelfRect.Apart padding))
    (hFits : ∀ tile ∈ tiles, (rect tile).x + (rect tile).width ≤ width ∧ (rect tile).y + (rect tile).height ≤ height) :
    tiles.foldl (fun rgba tile => paint tile rgba) (blank width height) =
        tiles.foldl (fun rgba tile => paint' tile rgba) (blank width height) ↔
      ∀ tile ∈ tiles, ∀ row < (rect tile).height, ∀ col < (rect tile).width, ∀ channel < 4,
        (value tile row col channel).or (some 0) = (value' tile row col channel).or (some 0) := by
  constructor
  · intro hSame tile hTile row hRow col hCol channel hChannel
    obtain ⟨hRight, hBottom⟩ := hFits tile hTile
    rw [← getElem?_painted h hApart hTile hRight hBottom hRow hCol hChannel, hSame]
    exact getElem?_painted h' hApart hTile hRight hBottom hRow hCol hChannel
  · intro hSame
    refine List.ext_getElem? fun i => ?_
    rcases Nat.lt_or_ge i (width * height * 4) with hIn | hOut
    · obtain ⟨x, y, channel, hX, hChannel, rfl⟩ := exists_place hIn
      by_cases hCovered : ∃ tile ∈ tiles, (rect tile).Covers x y
      · obtain ⟨tile, hTile, hLeft, hRight, hTop, hBottom⟩ := hCovered
        obtain ⟨col, rfl⟩ := Nat.exists_eq_add_of_le hLeft
        obtain ⟨row, rfl⟩ := Nat.exists_eq_add_of_le hTop
        have hCol := Nat.add_lt_add_iff_left.mp hRight
        have hRow := Nat.add_lt_add_iff_left.mp hBottom
        obtain ⟨hRightFits, hBottomFits⟩ := hFits tile hTile
        rw [getElem?_painted h hApart hTile hRightFits hBottomFits hRow hCol hChannel,
          getElem?_painted h' hApart hTile hRightFits hBottomFits hRow hCol hChannel]
        exact hSame tile hTile row hRow col hCol channel hChannel
      · have hAway : ∀ tile ∈ tiles, ¬(rect tile).Covers x y := fun tile hTile hCovers => hCovered ⟨tile, hTile, hCovers⟩
        rw [getElem?_unpainted h hX hChannel hAway, getElem?_unpainted h' hX hChannel hAway]
    · rw [List.getElem?_eq_none ((length_painted h).trans_le hOut), List.getElem?_eq_none ((length_painted h').trans_le hOut)]

end Images

/-! ## What a build leaves -/

theorem place_size {packer opened : ShelfPacker} {width height advance : Nat} {rect : ShelfRect}
    (h : packer.place width height advance = (some rect, opened)) : rect.width = width ∧ rect.height = height := by
  unfold ShelfPacker.place at h
  split at h
  · cases h
  split at h
  · cases h
  split at h
  · cases h
  split at h
  · cases h
  · cases h
    exact ⟨rfl, rfl⟩

theorem insert_size {packer after : ShelfPacker} {width height : UInt32} {rect : ShelfRect}
    (h : packer.insert width height = (some rect, after)) : rect.width = width.toNat ∧ rect.height = height.toNat := by
  unfold ShelfPacker.insert at h
  split at h
  · cases h
  split at h
  · cases h
  split at h
  · cases h
  split at h
  · split at h
    · cases h
    · exact place_size h
  · exact place_size h

section Build

variable {lighting : Option Formats.Slice} {ramp : UInt8 → UInt8} {white : ShelfRect}

theorem LightFace.insert_size {face : LightFace} {packer after : ShelfPacker} {rect : ShelfRect}
    (h : face.insert lighting packer = (some rect, after)) : rect.width * rect.height = face.sampleCount := by
  unfold LightFace.insert at h
  split at h
  · cases h
  rename_i width height hExtents
  split at h
  · cases h
  obtain ⟨hWidth, hHeight⟩ := World.insert_size h
  rw [hWidth, hHeight, sampleCount, hExtents]
  rfl

theorem LightFace.sound_insert (face : LightFace) (lighting : Option Formats.Slice) {packer : ShelfPacker} {placed : List ShelfRect}
    (h : Packing.Sound ⟨packer, placed⟩) :
    Packing.Sound ⟨(face.insert lighting packer).2, placed ++ (face.insert lighting packer).1.toList⟩ ∧
      (face.insert lighting packer).2.room = packer.room := by
  have hSame : Packing.Sound ⟨packer, placed ++ (none : Option ShelfRect).toList⟩ := by
    rw [Option.toList_none, List.append_nil]
    exact h
  unfold LightFace.insert
  split
  · exact ⟨hSame, rfl⟩
  split
  · exact ⟨hSame, rfl⟩
  · exact ⟨h.insert (_, _), Packing.room_insert ⟨packer, placed⟩ (_, _)⟩

abbrev PlacedFace := LightFace × ShelfRect

/-- The tiles after the white one are those of the faces placed so far. -/
structure Lit (lighting : Option Formats.Slice) (ramp : UInt8 → UInt8) (white : ShelfRect) (light : Lighting)
    (placed : List PlacedFace) : Prop where
  sound : Packing.Sound ⟨light.packer, white :: placed.map Prod.snd⟩
  width : light.packer.width = lightmapAtlasWidth.toNat
  height : light.packer.maxHeight = lightmapAtlasMaxHeight.toNat
  pixels : light.atlasPixels =
    (white, [255, 255, 255, 255]) :: placed.map fun entry => (entry.2, (entry.1.layer lighting ramp 0).getD [])
  tiles : light.lightTiles = placed.map fun entry => entry.1.tile lighting ramp entry.2
  each : ∀ entry ∈ placed, entry.2.width * entry.2.height = entry.1.sampleCount ∧
    ∃ pixels, entry.1.layer lighting ramp 0 = some pixels

theorem Lit.add {light : Lighting} {placed : List PlacedFace} (h : Lit lighting ramp white light placed) (face : LightFace) :
    ∃ more : List PlacedFace, Lit lighting ramp white (light.add lighting ramp face) (placed ++ more) ∧
      more.map Prod.fst = if face.isLit then (face.insert lighting light.packer).1.toList.map fun _ => face else [] := by
  unfold Lighting.add LightFace.placeLightmap
  cases hLit : face.isLit with
  | false => exact ⟨[], by rw [List.append_nil]; exact h, rfl⟩
  | true =>
    obtain ⟨hSound, hRoom⟩ := face.sound_insert lighting h.sound
    cases hInsert : face.insert lighting light.packer with
    | mk rect packer =>
      rw [hInsert] at hSound hRoom
      have hWidth : packer.width = light.packer.width := congrArg Prod.fst hRoom
      have hHeight : packer.maxHeight = light.packer.maxHeight := congrArg (fun room => room.2.1) hRoom
      cases rect with
      | none =>
        refine ⟨[], ?_, rfl⟩
        rw [List.append_nil]
        rw [Option.toList_none, List.append_nil] at hSound
        exact ⟨hSound, hWidth.trans h.width, hHeight.trans h.height, h.pixels, h.tiles, h.each⟩
      | some rect =>
        obtain ⟨pixels, hPixels⟩ := LightFace.exists_layer ramp hLit (congrArg Prod.fst hInsert)
        refine ⟨[(face, rect)], ⟨?_, hWidth.trans h.width, hHeight.trans h.height, ?_, ?_, ?_⟩, rfl⟩
        · rw [List.map_append]
          exact hSound
        · simp only [if_true, h.pixels, Option.map_some, hPixels, Option.toList_some, List.map_append, List.map_cons, List.map_nil,
            Option.getD_some, List.cons_append]
        · simp only [if_true, h.tiles, Option.map_some, List.map_append, List.map_cons, List.map_nil]
          rfl
        · intro entry hEntry
          rcases List.mem_append.mp hEntry with hOld | hNew
          · exact h.each entry hOld
          · obtain rfl := List.mem_singleton.mp hNew
            exact ⟨LightFace.insert_size hInsert, pixels, hPixels⟩

theorem packer_add (light : Lighting) (face : LightFace) : (light.add lighting ramp face).packer =
    if face.isLit then (face.insert lighting light.packer).2 else light.packer := by
  unfold Lighting.add LightFace.placeLightmap
  dsimp only
  split_ifs
  · cases (face.insert lighting light.packer).1 with
    | none => rfl
    | some rect => rfl
  · rfl

theorem Lit.foldl {light : Lighting} {placed : List PlacedFace} (h : Lit lighting ramp white light placed)
    (faces : List LightFace) :
    ∃ more : List PlacedFace, Lit lighting ramp white (faces.foldl (Lighting.add lighting ramp) light) (placed ++ more) ∧
      more.map Prod.fst = placedFaces lighting faces light.packer := by
  induction faces generalizing light placed with
  | nil => exact ⟨[], by rw [List.append_nil]; exact h, rfl⟩
  | cons face faces ih =>
    obtain ⟨first, hFirst, hFace⟩ := h.add face
    obtain ⟨rest, hRest, hFaces⟩ := ih hFirst
    refine ⟨first ++ rest, ?_, ?_⟩
    · rw [← List.append_assoc]
      exact hRest
    · rw [List.map_append, hFace, hFaces, packer_add, placedFaces]
      split_ifs <;> rfl

end Build

/-! ## The first image against the blend -/

theorem min_add_eq_iff {shade rest : Nat} (hShade : shade < 256) :
    UInt8.ofNat shade = UInt8.ofNat (min (shade + rest) 255) ↔ shade = 255 ∨ rest = 0 := by
  have hLess : min (shade + rest) 255 < 256 := (min_le_right _ _).trans_lt (by decide)
  constructor
  · intro hSame
    have hNat := congrArg UInt8.toNat hSame
    rw [UInt8.toNat_ofNat_of_lt' hShade, UInt8.toNat_ofNat_of_lt' hLess] at hNat
    omega
  · rintro (rfl | rfl)
    · rw [min_eq_right (Nat.le_add_right _ _)]
    · rw [Nat.add_zero, min_eq_left (Nat.le_of_lt_succ hShade)]

def reservedPacker : ShelfPacker := ((ShelfPacker.new lightmapAtlasWidth lightmapAtlasMaxHeight 1).insert 1 1).2

section Maps

variable {lighting : Option Formats.Slice} {ramp : UInt8 → UInt8} {faces : List LightFace} {maps : Lightmaps}

abbrev Drawn := ShelfRect × List UInt8 × (Nat → Nat → Option Rgba)

def whiteDrawn (white : ShelfRect) : Drawn := (white, [255, 255, 255, 255], fun _ _ => some .white)

def drawn (lighting : Option Formats.Slice) (ramp : UInt8 → UInt8) (entry : PlacedFace) : Drawn :=
  (entry.2, (entry.1.layer lighting ramp 0).getD [], (entry.1.tile lighting ramp entry.2).sample (fun _ => (1 : Rat)) byteOf)

theorem lit_faces (lighting : Option Formats.Slice) (ramp : UInt8 → UInt8) (faces : List LightFace) :
    ∃ placed : List PlacedFace, Lit lighting ramp ⟨0, 0, 1, 1⟩ (faces.foldl (Lighting.add lighting ramp)
        ⟨reservedPacker, [(⟨0, 0, 1, 1⟩, [255, 255, 255, 255])], []⟩) placed ∧
      placed.map Prod.fst = placedFaces lighting faces reservedPacker := by
  have hStart : Lit lighting ramp ⟨0, 0, 1, 1⟩ ⟨reservedPacker, [(⟨0, 0, 1, 1⟩, [255, 255, 255, 255])], []⟩ [] :=
    ⟨(Packing.sound_new lightmapAtlasWidth lightmapAtlasMaxHeight 1).insert (1, 1), rfl, rfl, rfl, rfl,
      fun _ hEntry => absurd hEntry List.not_mem_nil⟩
  exact hStart.foldl faces

theorem build_eq (lighting : Option Formats.Slice) (ramp : UInt8 → UInt8) (faces : List LightFace) :
    buildLightmaps lighting ramp faces =
      (composeAtlas (faces.foldl (Lighting.add lighting ramp)
          ⟨reservedPacker, [(⟨0, 0, 1, 1⟩, [255, 255, 255, 255])], []⟩).packer
        (faces.foldl (Lighting.add lighting ramp)
          ⟨reservedPacker, [(⟨0, 0, 1, 1⟩, [255, 255, 255, 255])], []⟩).atlasPixels).map fun composed =>
        composed.map fun atlas => ⟨atlas, ⟨0, 0, 1, 1⟩, (faces.foldl (Lighting.add lighting ramp)
          ⟨reservedPacker, [(⟨0, 0, 1, 1⟩, [255, 255, 255, 255])], []⟩).lightTiles⟩ := by
  have hWhite : (ShelfPacker.new lightmapAtlasWidth lightmapAtlasMaxHeight 1).insert 1 1 =
      (some ⟨0, 0, 1, 1⟩, reservedPacker) := rfl
  unfold buildLightmaps
  rw [hWhite]

theorem exists_build (lighting : Option Formats.Slice) (ramp : UInt8 → UInt8) (faces : List LightFace) :
    ∃ maps, buildLightmaps lighting ramp faces = some (.ok maps) := by
  obtain ⟨placed, hLit, -⟩ := lit_faces lighting ramp faces
  rw [build_eq]
  generalize faces.foldl (Lighting.add lighting ramp) ⟨reservedPacker, [(⟨0, 0, 1, 1⟩, [255, 255, 255, 255])], []⟩ =
    light at hLit ⊢
  have hTall : light.packer.maxHeight = lightmapAtlasMaxHeight.toNat := hLit.height
  have hUsed : light.packer.usedHeight ≤ lightmapAtlasMaxHeight.toNat := by
    rw [hLit.sound.used]
    refine foldl_max_le (Nat.zero_le _) fun value hValue => ?_
    obtain ⟨rect, hRect, rfl⟩ := List.mem_map.mp hValue
    exact (hLit.sound.past rect hRect).bottom_le.trans_eq hTall
  have hMost : lightmapAtlasMaxHeight.toNat = 4096 := rfl
  have hWide : light.packer.width = 1024 := hLit.width
  obtain ⟨atlas, hAtlas⟩ := exists_composeAtlas light.atlasPixels (by rw [hWide]; decide)
    (by rw [hWide]; omega : light.packer.width * max light.packer.usedHeight 1 * 4 < 2 ^ 63)
  rw [hAtlas]
  exact ⟨_, rfl⟩

theorem lit_build (h : buildLightmaps lighting ramp faces = some (.ok maps)) :
    ∃ (light : Lighting) (placed : List PlacedFace), Lit lighting ramp maps.whiteTile light placed ∧
      composeAtlas light.packer light.atlasPixels = some (.ok maps.atlas) ∧ maps.lightTiles = light.lightTiles ∧
      placed.map Prod.fst = placedFaces lighting faces reservedPacker ∧ maps.whiteTile = ⟨0, 0, 1, 1⟩ := by
  obtain ⟨placed, hLit, hFaces⟩ := lit_faces lighting ramp faces
  rw [build_eq] at h
  generalize faces.foldl (Lighting.add lighting ramp) ⟨reservedPacker, [(⟨0, 0, 1, 1⟩, [255, 255, 255, 255])], []⟩ =
    light at h hLit
  obtain ⟨composed, hComposed, hMap⟩ := Option.map_eq_some_iff.mp h
  cases composed with
  | error error => cases hMap
  | ok atlas =>
    cases hMap
    exact ⟨light, placed, hLit, hComposed, rfl, hFaces, rfl⟩

theorem rgba_new {width height : Nat} {rgba : List UInt8} {image : TextureImage}
    (h : TextureImage.new width height rgba = .ok image) :
    image.width = width ∧ image.height = height ∧ image.rgba = rgba := by
  unfold TextureImage.new at h
  split at h
  · obtain rfl := Except.ok.inj h
    exact ⟨rfl, rfl, rfl⟩
  · cases h

theorem image_eq_iff {a b : TextureImage} (hWidth : a.width = b.width) (hHeight : a.height = b.height) :
    a = b ↔ a.rgba = b.rgba := by
  constructor
  · exact congrArg TextureImage.rgba
  · intro hRgba
    cases a
    cases b
    cases hWidth
    cases hHeight
    cases hRgba
    rfl

theorem blend_is_painted {atlas : TextureImage} {whiteTile : ShelfRect} {placed : List PlacedFace}
    (hPaints : ∀ key ∈ whiteDrawn whiteTile :: placed.map (drawn lighting ramp), PaintsTile atlas.width atlas.height key.1
      (pixelValue key.2.2)
      (lastPatch (fun row => lastPatch (pixelPatch atlas.width atlas.height key.1 key.2.2 row) (List.range key.1.width))
        (List.range key.1.height))
      (paintTile atlas.width atlas.height key.1 key.2.2)) :
    blendLightmap atlas whiteTile (placed.map fun entry => entry.1.tile lighting ramp entry.2) (fun _ => (1 : Rat)) byteOf =
        atlas ↔
      (whiteDrawn whiteTile :: placed.map (drawn lighting ramp)).foldl
        (fun rgba key => paintTile atlas.width atlas.height key.1 key.2.2 rgba) (blank atlas.width atlas.height) =
          atlas.rgba := by
  obtain ⟨image, hImage⟩ := exists_new (length_painted hPaints) atlas.width_pos atlas.height_pos atlas.small
  obtain ⟨hWidth, hHeight, hRgba⟩ := rgba_new hImage
  have hBlend : blendLightmap atlas whiteTile (placed.map fun entry => entry.1.tile lighting ramp entry.2)
      (fun _ => (1 : Rat)) byteOf = image := by
    rw [List.foldl_cons, List.foldl_map] at hImage
    unfold blendLightmap
    dsimp only
    rw [List.foldl_map]
    split
    · next hMade => exact Except.ok.inj (hMade.symm.trans hImage)
    · next hMade => exact nomatch hMade.symm.trans hImage
  rw [hBlend, image_eq_iff hWidth hHeight, hRgba]

theorem same_values_iff {face : LightFace} {rect : ShelfRect} (hSize : rect.width * rect.height = face.sampleCount)
    {pixels : List UInt8} (hFirst : face.layer lighting ramp 0 = some pixels) :
    (∀ row < rect.height, ∀ col < rect.width, ∀ channel < 4,
      (rowValue rect pixels row col channel).or (some 0) =
        (pixelValue ((face.tile lighting ramp rect).sample (fun _ => (1 : Rat)) byteOf) row col channel).or (some 0)) ↔
      face.FirstLayerShows lighting ramp := by
  have hTotal (texel channel : Nat) : face.total lighting ramp (List.finRange 4) texel channel =
      face.shade lighting ramp 0 texel channel + face.total lighting ramp [1, 2, 3] texel channel :=
    LightFace.total_cons 0 [1, 2, 3] channel
  have hRest (texel channel : Nat) : face.total lighting ramp [1, 2, 3] texel channel = 0 ↔
      ∀ slot ≠ 0, face.shade lighting ramp slot texel channel = 0 := by
    rw [LightFace.total_cons, LightFace.total_cons, LightFace.total_cons]
    have hNil : face.total lighting ramp [] texel channel = 0 := rfl
    rw [hNil, Nat.add_zero, Nat.add_eq_zero_iff, Nat.add_eq_zero_iff]
    constructor
    · rintro ⟨hOne, hTwo, hThree⟩ slot hSlot
      obtain rfl | rfl | rfl : slot = 1 ∨ slot = 2 ∨ slot = 3 := by omega
      · exact hOne
      · exact hTwo
      · exact hThree
    · exact fun hAll => ⟨hAll 1 (by decide), hAll 2 (by decide), hAll 3 (by decide)⟩
  have hInside {row col : Nat} (hRow : row < rect.height) (hCol : col < rect.width) :
      row * rect.width + col < face.sampleCount := by
    have hRows := Nat.mul_le_mul_right rect.width (Nat.succ_le_of_lt hRow)
    rw [Nat.succ_mul, Nat.mul_comm rect.height, hSize] at hRows
    omega
  have hRowThere {row : Nat} (hRow : row < rect.height) : (row + 1) * rect.width * 4 ≤ pixels.length := by
    rw [LightFace.length_layer hFirst, ← hSize, Nat.mul_comm rect.width]
    exact Nat.mul_le_mul_right 4 (Nat.mul_le_mul_right rect.width hRow)
  -- a texel is the same in both exactly if its colours are
  have hTexel {row col : Nat} (hRow : row < rect.height) (hCol : col < rect.width) :
      (∀ channel < 4, (rowValue rect pixels row col channel).or (some 0) =
        (pixelValue ((face.tile lighting ramp rect).sample (fun _ => (1 : Rat)) byteOf) row col channel).or (some 0)) ↔
      ∀ channel < 3, face.shade lighting ramp 0 (row * rect.width + col) channel = 255 ∨
        ∀ slot ≠ 0, face.shade lighting ramp slot (row * rect.width + col) channel = 0 := by
    have hIn := hInside hRow hCol
    have hComposed (channel : Nat) : (rowValue rect pixels row col channel).or (some 0) =
        (pixels[(row * rect.width + col) * 4 + channel]?).or (some 0) := by
      rw [rowValue, if_pos (hRowThere hRow)]
    have hBlended (channel : Nat) :
        pixelValue ((face.tile lighting ramp rect).sample (fun _ => (1 : Rat)) byteOf) row col channel =
          [UInt8.ofNat (min (face.total lighting ramp (List.finRange 4) (row * rect.width + col) 0) 255),
            UInt8.ofNat (min (face.total lighting ramp (List.finRange 4) (row * rect.width + col) 1) 255),
            UInt8.ofNat (min (face.total lighting ramp (List.finRange 4) (row * rect.width + col) 2) 255), 255][channel]? := by
      rw [pixelValue, LightFace.sample_tile hFirst hIn]
      rfl
    have hColour {channel : Nat} (hChannel : channel < 3) :
        (rowValue rect pixels row col channel).or (some 0) =
          (pixelValue ((face.tile lighting ramp rect).sample (fun _ => (1 : Rat)) byteOf) row col channel).or (some 0) ↔
        face.shade lighting ramp 0 (row * rect.width + col) channel = 255 ∨
          ∀ slot ≠ 0, face.shade lighting ramp slot (row * rect.width + col) channel = 0 := by
      rw [hComposed, hBlended, LightFace.getElem?_layer hFirst hIn (hChannel.trans (by decide)), ← hRest,
        ← min_add_eq_iff (LightFace.shade_lt 0 channel), ← hTotal]
      obtain rfl | rfl | rfl : channel = 0 ∨ channel = 1 ∨ channel = 2 := by omega
      · exact Option.some_inj
      · exact Option.some_inj
      · exact Option.some_inj
    constructor
    · exact fun hSame channel hChannel => (hColour hChannel).mp (hSame channel (hChannel.trans (by decide)))
    · intro hShows channel hChannel
      rcases Nat.lt_or_eq_of_le (Nat.le_of_lt_succ hChannel) with hLess | rfl
      · exact (hColour hLess).mpr (hShows channel hLess)
      · rw [hComposed, hBlended, LightFace.alpha_layer hFirst hIn]
        rfl
  constructor
  · intro hSame texel hIn
    have hWide : 0 < rect.width := Nat.pos_of_ne_zero fun hZero => by
      rw [← hSize, hZero, Nat.zero_mul] at hIn
      exact Nat.not_lt_zero _ hIn
    have hCell := Nat.div_add_mod texel rect.width
    have hRow : texel / rect.width < rect.height := (Nat.div_lt_iff_lt_mul hWide).mpr (by
      rw [Nat.mul_comm, hSize]
      exact hIn)
    have hShows := (hTexel hRow (Nat.mod_lt texel hWide)).mp (hSame _ hRow _ (Nat.mod_lt texel hWide))
    rwa [Nat.mul_comm, hCell] at hShows
  · intro hShows row hRow col hCol
    exact (hTexel hRow hCol).mpr (hShows _ (hInside hRow hCol))

theorem same_white {row col channel : Nat} (hRow : row < 1) (hCol : col < 1) (hChannel : channel < 4) :
    (rowValue ⟨0, 0, 1, 1⟩ [255, 255, 255, 255] row col channel).or (some 0) =
      (pixelValue (fun _ _ => some Rgba.white) row col channel).or (some 0) := by
  obtain rfl := Nat.lt_one_iff.mp hRow
  obtain rfl := Nat.lt_one_iff.mp hCol
  obtain rfl | rfl | rfl | rfl : channel = 0 ∨ channel = 1 ∨ channel = 2 ∨ channel = 3 := by omega
  all_goals rfl

theorem atlas_is_composed {packer : ShelfPacker} {tiles : List (ShelfRect × List UInt8)} {atlas : TextureImage}
    (h : composeAtlas packer tiles = some (.ok atlas)) :
    atlas.width = packer.width ∧ atlas.height = max packer.usedHeight 1 ∧
      atlas.rgba = tiles.foldl (fun rgba tile => copyTile packer.width (max packer.usedHeight 1) tile rgba)
        (blank packer.width (max packer.usedHeight 1)) := by
  unfold composeAtlas at h
  dsimp only at h
  split at h
  · cases h
  · exact rgba_new (Option.some.inj h)

theorem blend_eq_atlas_iff (h : buildLightmaps lighting ramp faces = some (.ok maps)) :
    blendLightmap maps.atlas maps.whiteTile maps.lightTiles (fun _ => (1 : Rat)) byteOf = maps.atlas ↔
      ∀ face ∈ placedFaces lighting faces reservedPacker, face.FirstLayerShows lighting ramp := by
  obtain ⟨light, placed, hLit, hComposed, hTiles, hFaces, hWhite⟩ := lit_build h
  obtain ⟨hWidth, hHeight, hRgba⟩ := atlas_is_composed hComposed
  generalize hKeys : whiteDrawn maps.whiteTile :: placed.map (drawn lighting ramp) = keys
  have hRects : keys.map Prod.fst = maps.whiteTile :: placed.map Prod.snd := by
    rw [← hKeys, List.map_cons, List.map_map]
    rfl
  have hFits : ∀ key ∈ keys, key.1.x + key.1.width ≤ maps.atlas.width ∧ key.1.y + key.1.height ≤ maps.atlas.height := by
    intro key hKey
    have hMem : key.1 ∈ maps.whiteTile :: placed.map Prod.snd := hRects ▸ List.mem_map_of_mem hKey
    rw [hWidth, hHeight]
    refine ⟨(hLit.sound.past _ hMem).right_le, le_max_of_le_left ?_⟩
    rw [hLit.sound.used]
    exact le_foldl_max (.inl (List.mem_map_of_mem hMem))
  have hCopies : ∀ key ∈ keys, PaintsTile maps.atlas.width maps.atlas.height key.1 (rowValue key.1 key.2.1)
      (lastPatch (rowPatch maps.atlas.width maps.atlas.height (key.1, key.2.1)) (List.range key.1.height))
      (copyTile maps.atlas.width maps.atlas.height (key.1, key.2.1)) := fun key hKey =>
    paintsTile_copyTile (hFits key hKey).1 (hFits key hKey).2
  have hPaints : ∀ key ∈ keys, PaintsTile maps.atlas.width maps.atlas.height key.1 (pixelValue key.2.2)
      (lastPatch (fun row => lastPatch (pixelPatch maps.atlas.width maps.atlas.height key.1 key.2.2 row)
        (List.range key.1.width)) (List.range key.1.height))
      (paintTile maps.atlas.width maps.atlas.height key.1 key.2.2) := fun key hKey =>
    paintsTile_paintTile (hFits key hKey).1 (hFits key hKey).2
  have hAtlas : maps.atlas.rgba = keys.foldl
      (fun rgba key => copyTile maps.atlas.width maps.atlas.height (key.1, key.2.1) rgba)
      (blank maps.atlas.width maps.atlas.height) := by
    rw [hRgba, hLit.pixels, ← hKeys, List.foldl_cons, List.foldl_cons, List.foldl_map, List.foldl_map, hWidth, hHeight]
    rfl
  rw [hTiles, hLit.tiles, blend_is_painted (hKeys ▸ hPaints), hKeys, eq_comm, hAtlas,
    painted_eq_iff hCopies hPaints (hRects ▸ hLit.sound.apart) hFits, ← hKeys, List.forall_mem_cons]
  have hWhiteSame : ∀ row < (whiteDrawn maps.whiteTile).1.height, ∀ col < (whiteDrawn maps.whiteTile).1.width, ∀ channel < 4,
      (rowValue (whiteDrawn maps.whiteTile).1 (whiteDrawn maps.whiteTile).2.1 row col channel).or (some 0) =
        (pixelValue (whiteDrawn maps.whiteTile).2.2 row col channel).or (some 0) := by
    rw [hWhite]
    exact fun row hRow col hCol channel hChannel => same_white hRow hCol hChannel
  rw [and_iff_right hWhiteSame, List.forall_mem_map, ← hFaces, List.forall_mem_map]
  refine forall₂_congr fun entry hEntry => ?_
  obtain ⟨hSize, pixels, hFirst⟩ := hLit.each entry hEntry
  have hDrawn : (drawn lighting ramp entry).2.1 = pixels := by
    rw [drawn, hFirst]
    rfl
  rw [hDrawn]
  exact same_values_iff hSize hFirst

end Maps

/-- The blend at compiled intensity is the first image exactly if no face has light in a further style that its first
style leaves room for. -/
theorem first_image_is_blend_iff (lighting : Option Formats.Slice) (ramp : UInt8 → UInt8) (faces : List LightFace) :
    ∃ maps, buildLightmaps lighting ramp faces = some (.ok maps) ∧
      (blendLightmap maps.atlas maps.whiteTile maps.lightTiles (fun _ => (1 : Rat)) byteOf = maps.atlas ↔
        ∀ face ∈ placedFaces lighting faces reservedPacker, face.FirstLayerShows lighting ramp) := by
  obtain ⟨maps, hBuild⟩ := exists_build lighting ramp faces
  exact ⟨maps, hBuild, blend_eq_atlas_iff hBuild⟩

def twoStyles : LightFace := ⟨0, fun slot => if slot = 0 then 0 else if slot = 1 then 1 else styleNone, false, some (1, 1)⟩

theorem two_styles_differ : ¬∀ (lighting : Option Formats.Slice) (ramp : UInt8 → UInt8) (faces : List LightFace)
    (maps : Lightmaps), buildLightmaps lighting ramp faces = some (.ok maps) →
      blendLightmap maps.atlas maps.whiteTile maps.lightTiles (fun _ => (1 : Rat)) byteOf = maps.atlas := by
  intro hSame
  obtain ⟨maps, hBuild⟩ := exists_build (some ⟨[10, 10, 10, 5, 5, 5], by decide⟩) id [twoStyles]
  have hPlaced : placedFaces (some ⟨[10, 10, 10, 5, 5, 5], by decide⟩) [twoStyles] reservedPacker = [twoStyles] := rfl
  have hShows := (blend_eq_atlas_iff hBuild).mp (hSame _ _ _ maps hBuild) twoStyles
    (hPlaced ▸ List.mem_singleton_self twoStyles) 0 (by decide) 0 (by decide)
  rcases hShows with hFull | hDark
  · exact absurd hFull (by decide)
  · exact absurd (hDark 1 (by decide)) (by decide)

end OpenHalfLife.World
