import OpenHalfLife.World.Atlas

/-! # Every tile keeps its pixels

Tiles that lie apart are painted in any order: a pixel of a tile is that
tile's own sample, or black where it has none.
-/

namespace OpenHalfLife.World

set_option autoImplicit false

/-! ## Places in an image -/

def place (width x y channel : Nat) : Nat := (y * width + x) * 4 + channel

theorem row_unique {width x y x' y' : Nat} (hX : x < width) (hX' : x' < width)
    (h : y * width + x = y' * width + x') : y = y' ∧ x = x' := by
  rcases Nat.lt_trichotomy y y' with hLess | rfl | hMore
  · have hRow := Nat.mul_le_mul_right width (Nat.succ_le_of_lt hLess)
    rw [Nat.succ_mul] at hRow
    omega
  · exact ⟨rfl, Nat.add_left_cancel h⟩
  · have hRow := Nat.mul_le_mul_right width (Nat.succ_le_of_lt hMore)
    rw [Nat.succ_mul] at hRow
    omega

theorem place_lt {width height x y channel : Nat} (hX : x < width) (hY : y < height) (hChannel : channel < 4) :
    place width x y channel < width * height * 4 := by
  have hRow := Nat.mul_le_mul_right width (Nat.succ_le_of_lt hY)
  rw [Nat.succ_mul, Nat.mul_comm height] at hRow
  rw [place]
  omega

theorem place_in_row {width x y channel left row count : Nat} (hX : x < width) (hFits : left + count ≤ width)
    (hChannel : channel < 4) :
    (row * width + left) * 4 ≤ place width x y channel ∧
        place width x y channel < (row * width + left) * 4 + count * 4 ↔
      y = row ∧ left ≤ x ∧ x < left + count := by
  rw [place]
  constructor
  · rintro ⟨hStart, hStop⟩
    have hRow : y = row := by
      have hLine : y * width + x = row * width + (y * width + x - row * width) := by omega
      exact (row_unique hX (by omega) hLine).1
    subst hRow
    omega
  · rintro ⟨rfl, hLeft, hRight⟩
    omega

namespace ShelfRect

structure Covers (rect : ShelfRect) (x y : Nat) : Prop where
  left_le : rect.x ≤ x
  lt_right : x < rect.x + rect.width
  top_le : rect.y ≤ y
  lt_bottom : y < rect.y + rect.height

theorem Apart.not_covers {padding : Nat} {a b : ShelfRect} (h : a.Apart padding b) {x y : Nat} (hA : a.Covers x y) :
    ¬b.Covers x y := by
  intro hB
  have ⟨_, _, _, _⟩ := hA
  have ⟨_, _, _, _⟩ := hB
  rcases h with h | h | h | h <;> omega

theorem Apart.symm {padding : Nat} {a b : ShelfRect} (h : a.Apart padding b) : b.Apart padding a := by
  rcases h with h | h | h | h
  · exact Or.inr (Or.inl h)
  · exact Or.inl h
  · exact Or.inr (Or.inr (Or.inr h))
  · exact Or.inr (Or.inr (Or.inl h))

end ShelfRect

/-! ## One tile -/

/-- A way to paint a tile: nothing outside it, and each of its pixels on its own. -/
structure PaintsTile (width height : Nat) (rect : ShelfRect) (value : Nat → Nat → Nat → Option UInt8)
    (patch : Nat → Option UInt8) (paint : List UInt8 → List UInt8) : Prop where
  paints : Paints (width * height * 4) patch paint
  outside : ∀ x y channel, x < width → channel < 4 → ¬rect.Covers x y → patch (place width x y channel) = none
  inside : ∀ row col channel, row < rect.height → col < rect.width → channel < 4 →
    patch (place width (rect.x + col) (rect.y + row) channel) = value row col channel

section Rows

variable {width height : Nat} {rect : ShelfRect} {pixels : List UInt8}

def rowPatch (width height : Nat) (tile : ShelfRect × List UInt8) (row i : Nat) : Option UInt8 :=
  let (rect, pixels) := tile
  let src := row * rect.width * 4
  let dst := ((rect.y + row) * width + rect.x) * 4
  let length := rect.width * 4
  if rect.y + row ≥ height ∨ src + length > pixels.length ∨ dst + length > width * height * 4 then none
  else if dst ≤ i then ((pixels.drop src).take length)[i - dst]? else none

theorem paints_copyRow (tile : ShelfRect × List UInt8) (row : Nat) :
    Paints (width * height * 4) (rowPatch width height tile row) (copyRow width height tile row) := by
  obtain ⟨rect, pixels⟩ := tile
  by_cases hSkip : rect.y + row ≥ height ∨ row * rect.width * 4 + rect.width * 4 > pixels.length ∨
      ((rect.y + row) * width + rect.x) * 4 + rect.width * 4 > width * height * 4
  · have hPatch : rowPatch width height (rect, pixels) row = fun _ => none := by
      funext i
      exact if_pos hSkip
    rw [hPatch]
    refine (paints_id _).congr fun buffer hBuffer => ?_
    rw [copyRow, hBuffer]
    dsimp only
    split <;> rename_i hLow
    · rfl
    · rw [if_pos (hSkip.resolve_left hLow)]
      rfl
  · have hLength : ((pixels.drop (row * rect.width * 4)).take (rect.width * 4)).length = rect.width * 4 := by
      rw [List.length_take, List.length_drop]
      omega
    have hPatch : rowPatch width height (rect, pixels) row = fun i =>
        if ((rect.y + row) * width + rect.x) * 4 ≤ i then
          ((pixels.drop (row * rect.width * 4)).take (rect.width * 4))[i - ((rect.y + row) * width + rect.x) * 4]?
        else none := by
      funext i
      exact if_neg hSkip
    rw [hPatch]
    obtain ⟨hLow, hRest⟩ := not_or.mp hSkip
    refine (paints_overpaint (by omega)).congr fun buffer hBuffer => ?_
    rw [copyRow, hBuffer]
    dsimp only
    rw [if_neg hLow, if_neg hRest]

def rowValue (rect : ShelfRect) (pixels : List UInt8) (row col channel : Nat) : Option UInt8 :=
  if (row + 1) * rect.width * 4 ≤ pixels.length then pixels[(row * rect.width + col) * 4 + channel]? else none

theorem rowPatch_outside {x y channel row : Nat} (hFits : rect.x + rect.width ≤ width) (hX : x < width)
    (hChannel : channel < 4) (hNot : ¬(y = rect.y + row ∧ rect.x ≤ x ∧ x < rect.x + rect.width)) :
    rowPatch width height (rect, pixels) row (place width x y channel) = none := by
  have hAway := mt (place_in_row hX hFits hChannel).mp hNot
  rw [rowPatch]
  split
  · rfl
  · split <;> rename_i hStart
    · refine List.getElem?_eq_none ?_
      rw [List.length_take, List.length_drop]
      have hPast := mt (And.intro hStart) hAway
      omega
    · rfl

theorem rowPatch_inside {row col channel : Nat} (hFits : rect.x + rect.width ≤ width)
    (hBottom : rect.y + rect.height ≤ height) (hRow : row < rect.height) (hCol : col < rect.width)
    (hChannel : channel < 4) :
    rowPatch width height (rect, pixels) row (place width (rect.x + col) (rect.y + row) channel) =
      rowValue rect pixels row col channel := by
  have hLines : (rect.y + row + 1) * width ≤ height * width := Nat.mul_le_mul_right width (by omega)
  have hSrc : (row + 1) * rect.width = row * rect.width + rect.width := Nat.succ_mul row rect.width
  rw [Nat.succ_mul, Nat.mul_comm height] at hLines
  rw [rowPatch, rowValue, place]
  by_cases hThere : (row + 1) * rect.width * 4 ≤ pixels.length
  · have hOffset : ((rect.y + row) * width + (rect.x + col)) * 4 + channel - ((rect.y + row) * width + rect.x) * 4 =
        col * 4 + channel := by omega
    rw [if_neg (by omega), if_pos (by omega), if_pos hThere, hOffset, List.getElem?_take_of_lt (by omega),
      List.getElem?_drop]
    congr 1
    omega
  · rw [if_pos (by omega), if_neg hThere]

theorem paintsTile_copyTile (hFits : rect.x + rect.width ≤ width) (hBottom : rect.y + rect.height ≤ height) :
    PaintsTile width height rect (rowValue rect pixels)
      (lastPatch (rowPatch width height (rect, pixels)) (List.range rect.height))
      (copyTile width height (rect, pixels)) where
  paints := Paints.foldl fun row _ => paints_copyRow (rect, pixels) row
  outside x y channel hX hChannel hNot := by
    refine lastPatch_eq_none fun row hRow => rowPatch_outside hFits hX hChannel ?_
    rintro ⟨rfl, hLeft, hRight⟩
    exact hNot ⟨hLeft, hRight, Nat.le_add_right _ _, Nat.add_lt_add_left (List.mem_range.mp hRow) _⟩
  inside row col channel hRow hCol hChannel := by
    rw [lastPatch_range hRow, rowPatch_inside hFits hBottom hRow hCol hChannel]
    intro other _ hOther
    refine rowPatch_outside hFits (by omega) hChannel ?_
    rintro ⟨hSame, -⟩
    exact hOther (Nat.add_left_cancel hSame).symm

end Rows

section Pixels

variable {width height : Nat} {rect : ShelfRect} {sample : Nat → Nat → Option Rgba}

def pixelPatch (width height : Nat) (rect : ShelfRect) (sample : Nat → Nat → Option Rgba) (row col i : Nat) :
    Option UInt8 :=
  let dst := ((rect.y + row) * width + (rect.x + col)) * 4
  if rect.y + row ≥ height ∨ rect.x + col ≥ width ∨ dst + 4 > width * height * 4 then none
  else (sample row col).bind fun pixel => if dst ≤ i then pixel.bytes[i - dst]? else none

theorem paints_paintPixel (row col : Nat) :
    Paints (width * height * 4) (pixelPatch width height rect sample row col)
      (paintPixel width height rect sample row col) := by
  by_cases hSkip : rect.y + row ≥ height ∨ rect.x + col ≥ width ∨
      ((rect.y + row) * width + (rect.x + col)) * 4 + 4 > width * height * 4
  · have hPatch : pixelPatch width height rect sample row col = fun _ => none := by
      funext i
      exact if_pos hSkip
    rw [hPatch]
    refine (paints_id _).congr fun buffer hBuffer => ?_
    rw [paintPixel, hBuffer]
    split <;> rename_i hOut
    · rfl
    · have hLong := (or_assoc.mpr hSkip).resolve_left hOut
      split
      · rfl
      · rw [if_pos hLong]
        rfl
  · have hPatch : pixelPatch width height rect sample row col = fun i => (sample row col).bind fun pixel =>
        if ((rect.y + row) * width + (rect.x + col)) * 4 ≤ i then
          pixel.bytes[i - ((rect.y + row) * width + (rect.x + col)) * 4]?
        else none := by
      funext i
      exact if_neg hSkip
    obtain ⟨hIn, hShort⟩ := not_or.mp (mt or_assoc.mp hSkip)
    rw [hPatch]
    cases hSample : sample row col with
    | none =>
      refine (paints_id _).congr fun buffer hBuffer => ?_
      rw [paintPixel, if_neg hIn, hSample]
      rfl
    | some pixel =>
      refine (paints_overpaint (Nat.not_lt.mp hShort)).congr fun buffer hBuffer => ?_
      rw [paintPixel, if_neg hIn, hSample, hBuffer]
      exact if_neg hShort

def pixelValue (sample : Nat → Nat → Option Rgba) (row col channel : Nat) : Option UInt8 :=
  (sample row col).bind fun pixel => pixel.bytes[channel]?

theorem pixelPatch_outside {x y channel row col : Nat} (hX : x < width) (hChannel : channel < 4)
    (hNot : ¬(y = rect.y + row ∧ x = rect.x + col)) :
    pixelPatch width height rect sample row col (place width x y channel) = none := by
  rw [pixelPatch]
  split <;> rename_i hSkip
  · rfl
  · cases sample row col with
    | none => rfl
    | some pixel =>
      rw [Option.bind_some]
      split <;> rename_i hStart
      · refine List.getElem?_eq_none (Nat.not_lt.mp fun hLess => hNot ?_)
        have hCount : pixel.bytes.length = 4 := rfl
        have hFits : rect.x + col + 1 ≤ width := by omega
        have hPlace := (place_in_row hX hFits hChannel).mp ⟨hStart, by omega⟩
        omega
      · rfl

theorem pixelPatch_inside {row col channel : Nat} (hFits : rect.x + rect.width ≤ width)
    (hBottom : rect.y + rect.height ≤ height) (hRow : row < rect.height) (hCol : col < rect.width) :
    pixelPatch width height rect sample row col (place width (rect.x + col) (rect.y + row) channel) =
      pixelValue sample row col channel := by
  have hLines : (rect.y + row + 1) * width ≤ height * width := Nat.mul_le_mul_right width (by omega)
  rw [Nat.succ_mul, Nat.mul_comm height] at hLines
  rw [pixelPatch, pixelValue, if_neg (by omega), place]
  refine congrArg ((sample row col).bind ·) (funext fun pixel => ?_)
  rw [if_pos (Nat.le_add_right _ _), Nat.add_sub_cancel_left]

theorem paintsTile_paintTile (hFits : rect.x + rect.width ≤ width) (hBottom : rect.y + rect.height ≤ height) :
    PaintsTile width height rect (pixelValue sample)
      (lastPatch (fun row => lastPatch (pixelPatch width height rect sample row) (List.range rect.width))
        (List.range rect.height))
      (paintTile width height rect sample) where
  paints := Paints.foldl fun row _ => Paints.foldl fun col _ => paints_paintPixel row col
  outside x y channel hX hChannel hNot := by
    refine lastPatch_eq_none fun row hRow => lastPatch_eq_none fun col hCol =>
      pixelPatch_outside hX hChannel ?_
    rintro ⟨rfl, rfl⟩
    exact hNot ⟨Nat.le_add_right _ _, Nat.add_lt_add_left (List.mem_range.mp hCol) _, Nat.le_add_right _ _,
      Nat.add_lt_add_left (List.mem_range.mp hRow) _⟩
  inside row col channel hRow hCol hChannel := by
    rw [lastPatch_range hRow, lastPatch_range hCol, pixelPatch_inside hFits hBottom hRow hCol]
    · intro other _ hOther
      refine pixelPatch_outside (by omega) hChannel ?_
      rintro ⟨-, hSame⟩
      exact hOther (Nat.add_left_cancel hSame).symm
    · intro other _ hOther
      refine lastPatch_eq_none fun col' _ => pixelPatch_outside (by omega) hChannel ?_
      rintro ⟨hSame, -⟩
      exact hOther (Nat.add_left_cancel hSame).symm

end Pixels

/-! ## All tiles -/

section Tiles

variable {T : Type} {width height padding : Nat} {rect : T → ShelfRect} {value : T → Nat → Nat → Nat → Option UInt8}
  {patch : T → Nat → Option UInt8} {paint : T → List UInt8 → List UInt8} {tiles : List T}

def blank (width height : Nat) : List UInt8 := List.replicate (width * height * 4) 0

theorem length_painted (h : ∀ tile ∈ tiles, PaintsTile width height (rect tile) (value tile) (patch tile) (paint tile)) :
    (tiles.foldl (fun rgba tile => paint tile rgba) (blank width height)).length = width * height * 4 :=
  (Paints.foldl fun tile hTile => (h tile hTile).paints).length_eq _ List.length_replicate

theorem getElem?_painted (h : ∀ tile ∈ tiles, PaintsTile width height (rect tile) (value tile) (patch tile) (paint tile))
    (hApart : (tiles.map rect).Pairwise (ShelfRect.Apart padding)) {tile : T} (hTile : tile ∈ tiles)
    (hFits : (rect tile).x + (rect tile).width ≤ width) (hBottom : (rect tile).y + (rect tile).height ≤ height)
    {row col channel : Nat} (hRow : row < (rect tile).height) (hCol : col < (rect tile).width) (hChannel : channel < 4) :
    (tiles.foldl (fun rgba tile => paint tile rgba)
        (blank width height))[place width ((rect tile).x + col) ((rect tile).y + row) channel]? =
      (value tile row col channel).or (some 0) := by
  have hX : (rect tile).x + col < width := by omega
  have hCovers : (rect tile).Covers ((rect tile).x + col) ((rect tile).y + row) :=
    ⟨Nat.le_add_right _ _, Nat.add_lt_add_left hCol _, Nat.le_add_right _ _, Nat.add_lt_add_left hRow _⟩
  obtain ⟨before, after, hSplit⟩ := List.append_of_mem hTile
  have hPairs := hApart
  rw [hSplit, List.map_append, List.map_cons, List.pairwise_append, List.pairwise_cons] at hPairs
  obtain ⟨-, ⟨hLater, -⟩, hEarlier⟩ := hPairs
  have hAll := (Paints.foldl fun tile hTile => (h tile hTile).paints).getElem?_eq (blank width height)
    List.length_replicate (place width ((rect tile).x + col) ((rect tile).y + row) channel)
  have hBlank : (blank width height)[place width ((rect tile).x + col) ((rect tile).y + row) channel]? = some 0 := by
    rw [blank, List.getElem?_replicate, if_pos (place_lt hX (by omega) hChannel)]
  have hLast : lastPatch patch tiles (place width ((rect tile).x + col) ((rect tile).y + row) channel) =
      value tile row col channel := by
    rw [hSplit, lastPatch_eq, (h tile hTile).inside row col channel hRow hCol hChannel]
    · intro other hOther
      have hMem : other ∈ tiles := hSplit ▸ List.mem_append_left _ hOther
      refine (h other hMem).outside _ _ _ hX hChannel fun hOver => ?_
      have hAside := hEarlier (rect other) (List.mem_map_of_mem hOther) (rect tile) List.mem_cons_self
      exact hAside.not_covers hOver hCovers
    · intro other hOther
      have hMem : other ∈ tiles := hSplit ▸ List.mem_append_right _ (List.mem_cons_of_mem _ hOther)
      refine (h other hMem).outside _ _ _ hX hChannel ?_
      exact (hLater (rect other) (List.mem_map_of_mem hOther)).not_covers hCovers
  rw [hAll, hLast, hBlank]

end Tiles

/-! ## The atlas -/

theorem le_foldl_max {values : List Nat} {value start : Nat} (h : value ∈ values ∨ value ≤ start) :
    value ≤ values.foldl max start := by
  induction values generalizing start with
  | nil => exact h.resolve_left List.not_mem_nil
  | cons other values ih =>
    refine ih ?_
    rcases h with hMem | hStart
    · rcases List.mem_cons.mp hMem with rfl | hLater
      · exact Or.inr (le_max_right _ _)
      · exact Or.inl hLater
    · exact Or.inr (hStart.trans (le_max_left _ _))

theorem foldl_max_le {values : List Nat} {start bound : Nat} (hStart : start ≤ bound)
    (h : ∀ value ∈ values, value ≤ bound) : values.foldl max start ≤ bound := by
  induction values generalizing start with
  | nil => exact hStart
  | cons value values ih =>
    exact ih (max_le hStart (h value List.mem_cons_self)) fun other hOther => h other (List.mem_cons_of_mem _ hOther)

theorem pairwise_of_subperm {padding : Nat} {rects placed : List ShelfRect} (h : rects.Subperm placed)
    (hApart : placed.Pairwise (ShelfRect.Apart padding)) : rects.Pairwise (ShelfRect.Apart padding) := by
  obtain ⟨kept, hPerm, hKept⟩ := h
  exact (hPerm.pairwise_iff fun hAB => hAB.symm).mp (hApart.sublist hKept)

/-! ## What is seen -/

section Seen

variable {packer : ShelfPacker} {placed : List ShelfRect} {padding : Nat}

theorem byteAt_new {width height : Nat} {rgba : List UInt8} {image : TextureImage}
    (h : TextureImage.new width height rgba = .ok image) (x y channel : Nat) :
    image.byteAt x y channel = rgba[place width x y channel]? := by
  rw [TextureImage.new] at h
  split at h
  · obtain rfl := Except.ok.inj h
    rfl
  · cases h

theorem exists_new {width height : Nat} {rgba : List UInt8} (hLength : rgba.length = width * height * 4)
    (hWide : 0 < width) (hTall : 0 < height) (hSmall : width * height * 4 < 2 ^ 64) :
    ∃ image, TextureImage.new width height rgba = .ok image := ⟨_, dif_pos ⟨hSmall, hLength, hWide, hTall⟩⟩

theorem length_copyTiles (width height : Nat) (tiles : List (ShelfRect × List UInt8)) :
    (tiles.foldl (fun rgba tile => copyTile width height tile rgba) (blank width height)).length =
      width * height * 4 :=
  (Paints.foldl fun tile _ => Paints.foldl fun row _ => paints_copyRow tile row).length_eq _ List.length_replicate

theorem exists_composeAtlas (tiles : List (ShelfRect × List UInt8)) (hWide : 0 < packer.width)
    (hSmall : packer.width * max packer.usedHeight 1 * 4 < 2 ^ 63) :
    ∃ image, composeAtlas packer tiles = some (.ok image) := by
  have hTall : 0 < max packer.usedHeight 1 := lt_max_of_lt_right Nat.zero_lt_one
  obtain ⟨image, hImage⟩ := exists_new (length_copyTiles packer.width (max packer.usedHeight 1) tiles) hWide hTall
    (hSmall.trans (by decide))
  exact ⟨image, (if_neg (Nat.not_le.mpr hSmall)).trans (congrArg some hImage)⟩

theorem byteAt_composed (hFits : ∀ rect ∈ placed, rect.x + rect.width ≤ packer.width)
    (hBottom : ∀ rect ∈ placed, rect.bottom ≤ max packer.usedHeight 1)
    (hApart : placed.Pairwise (ShelfRect.Apart padding)) {tiles : List (ShelfRect × List UInt8)}
    (hPlaced : (tiles.map Prod.fst).Subperm placed) {image : TextureImage}
    (hImage : composeAtlas packer tiles = some (.ok image)) {tile : ShelfRect × List UInt8} (hTile : tile ∈ tiles)
    {row col channel : Nat} (hRow : row < tile.1.height) (hCol : col < tile.1.width) (hChannel : channel < 4) :
    image.byteAt (tile.1.x + col) (tile.1.y + row) channel =
      if (row + 1) * tile.1.width * 4 ≤ tile.2.length then tile.2[(row * tile.1.width + col) * 4 + channel]?
      else some 0 := by
  have hPaints : ∀ tile ∈ tiles, PaintsTile packer.width (max packer.usedHeight 1) tile.1 (rowValue tile.1 tile.2)
      (lastPatch (rowPatch packer.width (max packer.usedHeight 1) tile) (List.range tile.1.height))
      (copyTile packer.width (max packer.usedHeight 1) tile) := by
    intro tile hTile
    have hMem := hPlaced.subset (List.mem_map_of_mem hTile)
    exact paintsTile_copyTile (hFits _ hMem) (hBottom _ hMem)
  have hMem := hPlaced.subset (List.mem_map_of_mem hTile)
  have hSeen := getElem?_painted hPaints (pairwise_of_subperm hPlaced hApart) hTile (hFits _ hMem) (hBottom _ hMem)
    hRow hCol hChannel
  rw [composeAtlas] at hImage
  split at hImage
  · cases hImage
  · rw [byteAt_new (Option.some.inj hImage)]
    refine hSeen.trans ?_
    rw [rowValue]
    split <;> rename_i hThere
    · have hSucc : (row + 1) * tile.1.width = row * tile.1.width + tile.1.width := Nat.succ_mul row tile.1.width
      rw [List.getElem?_eq_getElem (by omega)]
      rfl
    · rfl

variable {K : Type} [Scalar K]

theorem byteAt_blended {atlas : TextureImage} {whiteTile : ShelfRect} {lightTiles : List LightTile}
    {intensity : UInt8 → K} {toByte : K → UInt8}
    (hFits : ∀ rect ∈ placed, rect.x + rect.width ≤ atlas.width)
    (hBottom : ∀ rect ∈ placed, rect.bottom ≤ atlas.height)
    (hApart : placed.Pairwise (ShelfRect.Apart padding))
    (hPlaced : (whiteTile :: lightTiles.map LightTile.rect).Subperm placed)
    {key : ShelfRect × (Nat → Nat → Option Rgba)}
    (hKey : key ∈ (whiteTile, fun _ _ => some Rgba.white) ::
      lightTiles.map fun tile => (tile.rect, tile.sample intensity toByte))
    {row col channel : Nat} (hRow : row < key.1.height) (hCol : col < key.1.width) (hChannel : channel < 4) :
    (blendLightmap atlas whiteTile lightTiles intensity toByte).byteAt (key.1.x + col) (key.1.y + row) channel =
      (pixelValue key.2 row col channel).or (some 0) := by
  have hRects : ((whiteTile, fun _ _ => some Rgba.white) ::
      lightTiles.map fun tile => (tile.rect, tile.sample intensity toByte)).map Prod.fst =
        whiteTile :: lightTiles.map LightTile.rect := by
    rw [List.map_cons, List.map_map]
    rfl
  generalize hKeys : (whiteTile, fun _ _ => some Rgba.white) ::
    lightTiles.map (fun tile => (tile.rect, tile.sample intensity toByte)) = keys at hKey hRects
  have hPaints : ∀ key ∈ keys, PaintsTile atlas.width atlas.height key.1 (pixelValue key.2)
      (lastPatch (fun row => lastPatch (pixelPatch atlas.width atlas.height key.1 key.2 row) (List.range key.1.width))
        (List.range key.1.height))
      (paintTile atlas.width atlas.height key.1 key.2) := by
    intro key hKey
    have hMem := hPlaced.subset (hRects ▸ List.mem_map_of_mem hKey)
    exact paintsTile_paintTile (hFits _ hMem) (hBottom _ hMem)
  have hMem := hPlaced.subset (hRects ▸ List.mem_map_of_mem hKey)
  have hSeen := getElem?_painted hPaints (hRects ▸ pairwise_of_subperm hPlaced hApart) hKey (hFits _ hMem)
    (hBottom _ hMem) hRow hCol hChannel
  obtain ⟨image, hImage⟩ := exists_new (length_painted hPaints) atlas.width_pos atlas.height_pos atlas.small
  have hBlend : blendLightmap atlas whiteTile lightTiles intensity toByte = image := by
    rw [← hKeys, List.foldl_cons, List.foldl_map] at hImage
    rw [blendLightmap, show List.replicate (atlas.width * atlas.height * 4) 0 = blank atlas.width atlas.height from rfl,
      hImage]
  rw [hBlend, byteAt_new hImage]
  exact hSeen

end Seen

/-- What packing keeps, and what is seen in an atlas of what was packed. -/
structure TilesKept (width maxHeight padding : UInt32) (packing : Packing) : Prop where
  inside : ∀ rect ∈ packing.placed, rect.x + rect.width ≤ width.toNat ∧ rect.bottom ≤ maxHeight.toNat
  apart : packing.placed.Pairwise (ShelfRect.Apart padding.toNat)
  used : packing.packer.usedHeight = (packing.placed.map ShelfRect.bottom).foldl max 0
  small : packing.packer.cursorX < 2 ^ 32 ∧ packing.packer.shelfY < 2 ^ 32 ∧ packing.packer.shelfHeight < 2 ^ 32 ∧
    packing.packer.usedHeight < 2 ^ 32
  composes : ∀ tiles, 0 < width.toNat → width.toNat * max packing.packer.usedHeight 1 * 4 < 2 ^ 63 →
    ∃ image, composeAtlas packing.packer tiles = some (.ok image)
  composed : ∀ tiles, (tiles.map Prod.fst).Subperm packing.placed →
    ∀ image, composeAtlas packing.packer tiles = some (.ok image) →
      ∀ tile ∈ tiles, ∀ row < tile.1.height, ∀ col < tile.1.width, ∀ channel < 4,
        image.byteAt (tile.1.x + col) (tile.1.y + row) channel =
          if (row + 1) * tile.1.width * 4 ≤ tile.2.length then tile.2[(row * tile.1.width + col) * 4 + channel]?
          else some 0
  blended : ∀ (K : Type) [Scalar K] (intensity : UInt8 → K) (toByte : K → UInt8) (atlas : TextureImage)
    (whiteTile : ShelfRect) (lightTiles : List LightTile),
    (whiteTile :: lightTiles.map LightTile.rect).Subperm packing.placed → atlas.width = width.toNat →
      atlas.height = max packing.packer.usedHeight 1 →
        (∀ row < whiteTile.height, ∀ col < whiteTile.width, ∀ channel < 4,
          (blendLightmap atlas whiteTile lightTiles intensity toByte).byteAt (whiteTile.x + col) (whiteTile.y + row)
            channel = some 255) ∧
        ∀ tile ∈ lightTiles, ∀ row < tile.rect.height, ∀ col < tile.rect.width, ∀ channel < 4,
          (blendLightmap atlas whiteTile lightTiles intensity toByte).byteAt (tile.rect.x + col) (tile.rect.y + row)
              channel =
            match tile.sample intensity toByte row col with
            | some pixel => pixel.bytes[channel]?
            | none => some 0

/-- Tiles never overlap or bleed, and each keeps its pixels. -/
theorem tiles_kept (width maxHeight padding : UInt32) (sizes : List (UInt32 × UInt32)) :
    TilesKept width maxHeight padding (Packing.insertAll width maxHeight padding sizes) := by
  have hSound := Packing.sound_insertAll width maxHeight padding sizes
  have hRoom := Packing.room_insertAll width maxHeight padding sizes
  generalize Packing.insertAll width maxHeight padding sizes = packing at hSound hRoom ⊢
  obtain ⟨hWidth, hRest⟩ := Prod.mk.inj hRoom
  obtain ⟨hHeight, hPadding⟩ := Prod.mk.inj hRest
  have hUsed : packing.packer.usedHeight ≤ maxHeight.toNat := by
    rw [hSound.used]
    refine foldl_max_le (Nat.zero_le _) fun value hValue => ?_
    obtain ⟨rect, hRect, rfl⟩ := List.mem_map.mp hValue
    exact (hSound.past rect hRect).bottom_le.trans_eq hHeight
  have hRight : ∀ rect ∈ packing.placed, rect.x + rect.width ≤ width.toNat := fun rect hRect =>
    (hSound.past rect hRect).right_le.trans_eq hWidth
  have hBottom : ∀ rect ∈ packing.placed, rect.bottom ≤ max packing.packer.usedHeight 1 := by
    intro rect hRect
    have hLe : rect.bottom ≤ (packing.placed.map ShelfRect.bottom).foldl max 0 :=
      le_foldl_max (Or.inl (List.mem_map_of_mem hRect))
    exact (hLe.trans_eq hSound.used.symm).trans (le_max_left _ _)
  constructor
  · exact fun rect hRect => ⟨hRight rect hRect, (hSound.past rect hRect).bottom_le.trans_eq hHeight⟩
  · exact hPadding ▸ hSound.apart
  · exact hSound.used
  · exact ⟨hSound.small.1, hSound.small.2.1, hSound.small.2.2, hUsed.trans_lt maxHeight.toNat_lt⟩
  · intro tiles hWide hSmall
    rw [← hWidth] at hWide hSmall
    exact exists_composeAtlas tiles hWide hSmall
  · intro tiles hPlaced image hImage tile hTile row hRow col hCol channel hChannel
    exact byteAt_composed (hWidth ▸ hRight) hBottom hSound.apart hPlaced hImage hTile hRow hCol hChannel
  · intro K _ intensity toByte atlas whiteTile lightTiles hPlaced hWide hTall
    have hFits : ∀ rect ∈ packing.placed, rect.x + rect.width ≤ atlas.width := hWide ▸ hRight
    have hTop : ∀ rect ∈ packing.placed, rect.bottom ≤ atlas.height := hTall ▸ hBottom
    constructor
    · intro row hRow col hCol channel hChannel
      have hWhite : ∀ channel < 4, Rgba.white.bytes[channel]? = some 255 := by decide
      rw [byteAt_blended hFits hTop hSound.apart hPlaced List.mem_cons_self hRow hCol hChannel, pixelValue,
        Option.bind_some, hWhite channel hChannel]
      rfl
    · intro tile hTile row hRow col hCol channel hChannel
      have hKey := List.mem_cons_of_mem (whiteTile, fun _ _ => some Rgba.white)
        (List.mem_map_of_mem (f := fun tile : LightTile => (tile.rect, tile.sample intensity toByte)) hTile)
      rw [byteAt_blended hFits hTop hSound.apart hPlaced hKey hRow hCol hChannel, pixelValue]
      dsimp only
      cases tile.sample intensity toByte row col with
      | none => rfl
      | some pixel =>
        have hLess : channel < pixel.bytes.length := hChannel
        rw [Option.bind_some, List.getElem?_eq_getElem hLess]
        exact (List.getElem?_eq_getElem hLess).symm

end OpenHalfLife.World
