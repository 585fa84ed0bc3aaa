import OpenHalfLife.Lib.Painting
import OpenHalfLife.Lib.Scalar
import OpenHalfLife.World.Visibility
import Mathlib.Data.List.Pairwise
import Mathlib.Order.Lattice
import Mathlib.Algebra.Order.Ring.Nat
import Mathlib.Data.List.Perm.Subperm

/-! # Packing lightmap tiles

Tiles are placed from left to right on shelves, and the shelves below one
another. What a call changes before it fails stays changed.
-/

namespace OpenHalfLife.World

set_option autoImplicit false

def checkedAdd (a b : Nat) : Option Nat := if a + b < 2 ^ 32 then some (a + b) else none

structure ShelfRect where
  x : Nat
  y : Nat
  width : Nat
  height : Nat
  deriving DecidableEq, Repr

structure ShelfPacker where
  width : Nat
  maxHeight : Nat
  padding : Nat
  cursorX : Nat
  shelfY : Nat
  shelfHeight : Nat
  usedHeight : Nat

namespace ShelfPacker

def new (width maxHeight padding : UInt32) : ShelfPacker where
  width := width.toNat
  maxHeight := maxHeight.toNat
  padding := padding.toNat
  cursorX := 0
  shelfY := 0
  shelfHeight := 0
  usedHeight := 0

def openShelf (packer : ShelfPacker) : Option ShelfPacker :=
  (checkedAdd packer.shelfY packer.shelfHeight).map fun shelfY =>
    { packer with shelfY, shelfHeight := 0, cursorX := 0 }

def room (packer : ShelfPacker) : Nat × Nat × Nat := (packer.width, packer.maxHeight, packer.padding)

def place (packer : ShelfPacker) (width height advance : Nat) : Option ShelfRect × ShelfPacker :=
  match checkedAdd packer.shelfY height with
  | none => (none, packer)
  | some yEnd =>
    if yEnd > packer.maxHeight then (none, packer)
    else
      match checkedAdd packer.cursorX advance with
      | none => (none, packer)
      | some cursorX =>
        match checkedAdd height packer.padding with
        | none => (none, { packer with cursorX })
        | some tall =>
          (some ⟨packer.cursorX, packer.shelfY, width, height⟩,
            { packer with
              cursorX
              shelfHeight := max packer.shelfHeight tall
              usedHeight := max packer.usedHeight yEnd })

def insert (packer : ShelfPacker) (width height : UInt32) : Option ShelfRect × ShelfPacker :=
  if width.toNat > packer.width ∨ height.toNat > packer.maxHeight then (none, packer)
  else
    match checkedAdd width.toNat packer.padding with
    | none => (none, packer)
    | some advance =>
      match checkedAdd packer.cursorX width.toNat with
      | none => (none, packer)
      | some right =>
        if right > packer.width then
          match packer.openShelf with
          | none => (none, packer)
          | some packer => packer.place width.toNat height.toNat advance
        else packer.place width.toNat height.toNat advance

end ShelfPacker

structure Packing where
  packer : ShelfPacker
  placed : List ShelfRect

namespace Packing

def insert (packing : Packing) (size : UInt32 × UInt32) : Packing :=
  let (rect, packer) := packing.packer.insert size.1 size.2
  ⟨packer, packing.placed ++ rect.toList⟩

def insertAll (width maxHeight padding : UInt32) (sizes : List (UInt32 × UInt32)) : Packing :=
  sizes.foldl insert ⟨.new width maxHeight padding, []⟩

end Packing

/-! ## What is placed -/

def ShelfRect.Apart (padding : Nat) (a b : ShelfRect) : Prop :=
  a.x + a.width + padding ≤ b.x ∨ b.x + b.width + padding ≤ a.x ∨
    a.y + a.height + padding ≤ b.y ∨ b.y + b.height + padding ≤ a.y

def ShelfRect.bottom (rect : ShelfRect) : Nat := rect.y + rect.height

structure ShelfPacker.Past (packer : ShelfPacker) (rect : ShelfRect) : Prop where
  right_le : rect.x + rect.width ≤ packer.width
  bottom_le : rect.bottom ≤ packer.maxHeight
  past : rect.bottom + packer.padding ≤ packer.shelfY ∨
    rect.y = packer.shelfY ∧ rect.x + rect.width + packer.padding ≤ packer.cursorX ∧
      rect.height + packer.padding ≤ packer.shelfHeight

/-- Every rectangle within its place and apart from the others, and every number within its width. -/
structure Packing.Sound (packing : Packing) : Prop where
  past : ∀ rect ∈ packing.placed, packing.packer.Past rect
  apart : packing.placed.Pairwise (ShelfRect.Apart packing.packer.padding)
  used : packing.packer.usedHeight = (packing.placed.map ShelfRect.bottom).foldl max 0
  fits : packing.packer.width < 2 ^ 32 ∧ packing.packer.maxHeight < 2 ^ 32 ∧ packing.packer.padding < 2 ^ 32
  small : packing.packer.cursorX < 2 ^ 32 ∧ packing.packer.shelfY < 2 ^ 32 ∧ packing.packer.shelfHeight < 2 ^ 32

theorem checkedAdd_eq_some {a b sum : Nat} : checkedAdd a b = some sum ↔ a + b < 2 ^ 32 ∧ a + b = sum := by
  rw [checkedAdd]
  split <;> rename_i h
  · exact ⟨fun hSum => ⟨h, Option.some.inj hSum⟩, fun hSum => congrArg some hSum.2⟩
  · exact ⟨nofun, fun hSum => absurd hSum.1 h⟩

namespace Packing

theorem sound_new (width maxHeight padding : UInt32) : Sound ⟨.new width maxHeight padding, []⟩ where
  past := nofun
  apart := List.Pairwise.nil
  used := rfl
  fits := ⟨width.toNat_lt, maxHeight.toNat_lt, padding.toNat_lt⟩
  small := ⟨Nat.two_pow_pos 32, Nat.two_pow_pos 32, Nat.two_pow_pos 32⟩

variable {packer opened : ShelfPacker} {placed : List ShelfRect}

theorem Sound.openShelf (h : Sound ⟨packer, placed⟩) (hOpened : packer.openShelf = some opened) :
    Sound ⟨opened, placed⟩ := by
  obtain ⟨shelfY, hShelf, rfl⟩ := Option.map_eq_some_iff.mp hOpened
  obtain ⟨hSmall, rfl⟩ := checkedAdd_eq_some.mp hShelf
  refine ⟨fun rect hRect => ?_, h.apart, h.used, h.fits, Nat.two_pow_pos 32, hSmall, Nat.two_pow_pos 32⟩
  obtain ⟨hRight, hBottom, hPast⟩ := h.past rect hRect
  refine ⟨hRight, hBottom, Or.inl ?_⟩
  dsimp only [ShelfRect.bottom] at hPast ⊢
  omega

theorem Sound.place (h : Sound ⟨packer, placed⟩) {width height advance : Nat}
    (hAdvance : checkedAdd width packer.padding = some advance) (hWidth : packer.cursorX + width ≤ packer.width) :
    Sound ⟨(packer.place width height advance).2, placed ++ (packer.place width height advance).1.toList⟩ := by
  obtain ⟨-, rfl⟩ := checkedAdd_eq_some.mp hAdvance
  have hSame : Sound ⟨packer, placed ++ (none : Option ShelfRect).toList⟩ := by
    rw [Option.toList_none, List.append_nil]
    exact h
  unfold ShelfPacker.place
  split
  · exact hSame
  · rename_i yEnd hEnd
    obtain ⟨hEndSmall, rfl⟩ := checkedAdd_eq_some.mp hEnd
    split <;> rename_i hTall
    · exact hSame
    · split
      · exact hSame
      · rename_i cursorX hCursor
        obtain ⟨hCursorSmall, rfl⟩ := checkedAdd_eq_some.mp hCursor
        split
        · refine ⟨fun rect hRect => ?_, hSame.apart, hSame.used, h.fits, hCursorSmall, h.small.2⟩
          obtain ⟨hRight, hBottom, hPast⟩ := hSame.past rect hRect
          refine ⟨hRight, hBottom, ?_⟩
          dsimp only [ShelfRect.bottom] at hPast ⊢
          omega
        · rename_i tall hNext
          obtain ⟨hTallSmall, rfl⟩ := checkedAdd_eq_some.mp hNext
          refine ⟨fun rect hRect => ?_, ?_, ?_, h.fits, hCursorSmall, h.small.2.1, ?_⟩
          · rcases List.mem_append.mp hRect with hOld | hNew
            · obtain ⟨hRight, hBottom, hPast⟩ := h.past rect hOld
              refine ⟨hRight, hBottom, ?_⟩
              dsimp only [ShelfRect.bottom] at hPast ⊢
              omega
            · obtain rfl := List.mem_singleton.mp hNew
              refine ⟨hWidth, Nat.not_lt.mp hTall, Or.inr ?_⟩
              dsimp only
              omega
          · refine List.pairwise_append.mpr ⟨h.apart, List.pairwise_singleton _ _, fun rect hRect other hOther => ?_⟩
            obtain rfl := List.mem_singleton.mp hOther
            rcases (h.past rect hRect).past with hAbove | ⟨-, hLeft, -⟩
            · exact Or.inr (Or.inr (Or.inl hAbove))
            · exact Or.inl hLeft
          · change max packer.usedHeight _ = _
            rw [h.used, List.map_append, List.foldl_append]
            rfl
          · exact max_lt h.small.2.2 hTallSmall

theorem Sound.insert {packing : Packing} (h : packing.Sound) (size : UInt32 × UInt32) :
    (packing.insert size).Sound := by
  obtain ⟨packer, placed⟩ := packing
  have hSame : Sound ⟨packer, placed ++ (none : Option ShelfRect).toList⟩ := by
    rw [Option.toList_none, List.append_nil]
    exact h
  unfold Packing.insert ShelfPacker.insert
  dsimp only
  split <;> rename_i hSize
  · exact hSame
  · split
    · exact hSame
    · rename_i advance hAdvance
      split
      · exact hSame
      · rename_i right hRight
        obtain ⟨-, rfl⟩ := checkedAdd_eq_some.mp hRight
        split <;> rename_i hFull
        · split
          · exact hSame
          · rename_i opened hOpened
            obtain ⟨shelfY, -, hShelf⟩ := Option.map_eq_some_iff.mp hOpened
            refine (h.openShelf hOpened).place ?_ ?_
            · rw [← hShelf]
              exact hAdvance
            · rw [← hShelf]
              dsimp only
              omega
        · exact h.place hAdvance (Nat.not_lt.mp hFull)

theorem room_place (packer : ShelfPacker) (width height advance : Nat) :
    (packer.place width height advance).2.room = packer.room := by
  unfold ShelfPacker.place
  split
  · rfl
  · split
    · rfl
    · split
      · rfl
      · split <;> rfl

theorem room_insert (packing : Packing) (size : UInt32 × UInt32) :
    (packing.insert size).packer.room = packing.packer.room := by
  unfold Packing.insert ShelfPacker.insert
  dsimp only
  split
  · rfl
  · split
    · rfl
    · split
      · rfl
      · split
        · split
          · rfl
          · rename_i opened hOpened
            obtain ⟨shelfY, -, rfl⟩ := Option.map_eq_some_iff.mp hOpened
            exact room_place _ _ _ _
        · exact room_place _ _ _ _

theorem room_insertAll (width maxHeight padding : UInt32) (sizes : List (UInt32 × UInt32)) :
    (insertAll width maxHeight padding sizes).packer.room = (width.toNat, maxHeight.toNat, padding.toNat) := by
  have hRun : ∀ packing : Packing, (sizes.foldl insert packing).packer.room = packing.packer.room := by
    induction sizes with
    | nil => exact fun packing => rfl
    | cons size sizes ih => exact fun packing => (ih _).trans (room_insert packing size)
  exact hRun _

theorem sound_insertAll (width maxHeight padding : UInt32) (sizes : List (UInt32 × UInt32)) :
    (insertAll width maxHeight padding sizes).Sound := by
  have hRun : ∀ packing : Packing, packing.Sound → (sizes.foldl insert packing).Sound := by
    induction sizes with
    | nil => exact fun packing h => h
    | cons size sizes ih => exact fun packing h => ih _ (h.insert size)
  exact hRun _ (sound_new width maxHeight padding)

end Packing

end OpenHalfLife.World

namespace OpenHalfLife.World

set_option autoImplicit false

/-! ## The lightmap atlas

The image all lightmap tiles are painted into: once when a map is loaded, and
again whenever the light styles change.
-/

structure TextureImage where
  width : Nat
  height : Nat
  rgba : List UInt8
  length_eq : rgba.length = width * height * 4
  width_pos : 0 < width
  height_pos : 0 < height
  small : width * height * 4 < 2 ^ 64

structure Rgba where
  r : UInt8
  g : UInt8
  b : UInt8
  a : UInt8

def Rgba.bytes (pixel : Rgba) : List UInt8 := [pixel.r, pixel.g, pixel.b, pixel.a]

def Rgba.white : Rgba := ⟨255, 255, 255, 255⟩

namespace TextureImage

def new (width height : Nat) (rgba : List UInt8) : Except WorldError TextureImage :=
  if h : width * height * 4 < 2 ^ 64 ∧ rgba.length = width * height * 4 ∧ 0 < width ∧ 0 < height then
    .ok ⟨width, height, rgba, h.2.1, h.2.2.1, h.2.2.2, h.1⟩
  else .error .limitExceeded

def byteAt (image : TextureImage) (x y channel : Nat) : Option UInt8 :=
  image.rgba[(y * image.width + x) * 4 + channel]?

end TextureImage

def copyRow (width height : Nat) (tile : ShelfRect × List UInt8) (row : Nat) (rgba : List UInt8) : List UInt8 :=
  let (rect, pixels) := tile
  let src := row * rect.width * 4
  let dstY := rect.y + row
  if dstY ≥ height then rgba
  else
    let dst := (dstY * width + rect.x) * 4
    let length := rect.width * 4
    if src + length > pixels.length ∨ dst + length > rgba.length then rgba
    else overpaint dst ((pixels.drop src).take length) rgba

def copyTile (width height : Nat) (tile : ShelfRect × List UInt8) (rgba : List UInt8) : List UInt8 :=
  (List.range tile.1.height).foldl (fun rgba row => copyRow width height tile row rgba) rgba

def composeAtlas (packer : ShelfPacker) (tiles : List (ShelfRect × List UInt8)) :
    Option (Except WorldError TextureImage) :=
  let width := packer.width
  let height := max packer.usedHeight 1
  if width * height * 4 ≥ 2 ^ 63 then none
  else
    let rgba := tiles.foldl (fun rgba tile => copyTile width height tile rgba) (List.replicate (width * height * 4) 0)
    some (TextureImage.new width height rgba)

section Paint

variable (width height : Nat) (rect : ShelfRect) (sample : Nat → Nat → Option Rgba)

def paintPixel (row col : Nat) (rgba : List UInt8) : List UInt8 :=
  let dstY := rect.y + row
  let dstX := rect.x + col
  if dstY ≥ height ∨ dstX ≥ width then rgba
  else
    match sample row col with
    | none => rgba
    | some pixel =>
      let dst := (dstY * width + dstX) * 4
      if dst + 4 > rgba.length then rgba else overpaint dst pixel.bytes rgba

def paintTile (rgba : List UInt8) : List UInt8 :=
  (List.range rect.height).foldl
    (fun rgba row =>
      (List.range rect.width).foldl (fun rgba col => paintPixel width height rect sample row col rgba) rgba) rgba

end Paint

def styleNone : UInt8 := 255

structure LightTile where
  rect : ShelfRect
  styles : Fin 4 → UInt8
  layers : Fin 4 → Option (List UInt8)

section Blend

variable {K : Type} [Scalar K]

/-- The colours of a style added to what there is; unchanged for a style that is not there. -/
def LightTile.blendSlot (tile : LightTile) (intensity : UInt8 → K) (row col : Nat) (accum : Option (K × K × K))
    (slot : Fin 4) : Option (K × K × K) :=
  let style := tile.styles slot
  if style = styleNone then accum
  else
    match tile.layers slot with
    | none => accum
    | some layer =>
      let src := (row * tile.rect.width + col) * 4
      match (layer.drop src).take 4 with
      | [r, g, b, _] =>
        let weight := Scalar.maximum (intensity style) 0
        let (red, green, blue) := accum.getD (0, 0, 0)
        some (red + (r.toNat : K) * weight, green + (g.toNat : K) * weight, blue + (b.toNat : K) * weight)
      | _ => accum

def clampByte (value : K) : K :=
  if value < 0 then 0 else if ((255 : Nat) : K) < value then ((255 : Nat) : K) else value

def LightTile.sample (tile : LightTile) (intensity : UInt8 → K) (toByte : K → UInt8) (row col : Nat) : Option Rgba :=
  ((List.finRange 4).foldl (tile.blendSlot intensity row col) none).map fun (red, green, blue) =>
    ⟨toByte (clampByte red), toByte (clampByte green), toByte (clampByte blue), 255⟩

def blendLightmap (atlas : TextureImage) (whiteTile : ShelfRect) (lightTiles : List LightTile) (intensity : UInt8 → K)
    (toByte : K → UInt8) : TextureImage :=
  let width := atlas.width
  let height := atlas.height
  let rgba := paintTile width height whiteTile (fun _ _ => some .white) (List.replicate (width * height * 4) 0)
  let rgba := lightTiles.foldl
    (fun rgba tile => paintTile width height tile.rect (tile.sample intensity toByte) rgba) rgba
  match TextureImage.new width height rgba with
  | .ok image => image
  | .error _ => atlas

end Blend

end OpenHalfLife.World
