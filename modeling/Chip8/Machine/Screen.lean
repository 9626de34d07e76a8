import Chip8.Text.Numeral

/-!
# The screen

The screen has 64 columns of 32 pixels. A sprite is a row of bytes, each of which is a
row of eight pixels with the leftmost in the highest bit. Drawing begins by putting out
all collisions. Then it goes through the rows of the sprite from the top, and through
each row from the left, and covers one pixel after the other; what would lie outside the
screen is cut off. A pixel that is shown when it is covered becomes a collision: it is
still shown until the next drawing.

## Main definitions

* `Pixel`, `Screen`, `Screen.get?`, `Screen.set`.
* `Screen.clear`, `Screen.clearCollisions`.
* `Drawing` — a drawing under way; `Drawing.cover`, `drawBit`, `drawRow`, `drawRows`.
* `Screen.draw`, `Screen.collides` — the screen behind a drawing, and what is reported.

## Main results

* `get?_set`, `get?_clearCollisions`, `ext_get?` — everything about a screen is said
  through its pixels.
-/

namespace Chip8

/-- The state of a pixel. -/
inductive Pixel where
  | empty
  | lit
  /-- Was lit, and was covered by the latest drawing. -/
  | collision
  deriving DecidableEq, Repr

namespace Pixel

/-- The number by which a pixel is listed. -/
def code : Pixel → Nat
  | empty => 0
  | lit => 1
  | collision => 2

/-- Whether a pixel is shown. -/
def isShown (p : Pixel) : Bool := p ≠ empty

/-- The pixel with a collision put out. -/
def settle : Pixel → Pixel
  | collision => empty
  | p => p

/-- The pixel when a sprite covers it. -/
def cover : Pixel → Pixel
  | empty => lit
  | _ => collision

end Pixel

/-- The number of columns. -/
def screenWidth : Nat := 64

/-- The number of rows. -/
def screenHeight : Nat := 32

/-- The pixels, column by column. -/
structure Screen where
  columns : Vector (Vector Pixel screenHeight) screenWidth
  deriving DecidableEq

namespace Screen

/-- The screen without a shown pixel. -/
def clear : Screen := ⟨Vector.replicate screenWidth (Vector.replicate screenHeight .empty)⟩

/-- The pixel at column `x` and row `y`, if there is one. -/
def get? (s : Screen) (x y : Nat) : Option Pixel := s.columns[x]?.bind (·[y]?)

/-- The pixel at column `x` and row `y`; outside the screen nothing is shown. -/
def get (s : Screen) (x y : Nat) : Pixel := (s.get? x y).getD .empty

/-- The screen with another pixel at column `x` and row `y`, if there is one. -/
def set (s : Screen) (x y : Nat) (p : Pixel) : Screen :=
  match s.columns[x]? with
  | some column => ⟨s.columns.setIfInBounds x (column.setIfInBounds y p)⟩
  | none => s

/-- The screen with its collisions put out. -/
def clearCollisions (s : Screen) : Screen := ⟨s.columns.map (·.map Pixel.settle)⟩

/-- The number of pixels that are shown. -/
def shown (s : Screen) : Nat :=
  s.columns.toList.foldl (fun count column => count + column.countP Pixel.isShown) 0

/-- A summary of what is shown. -/
def text (s : Screen) : String := "Framebuffer \x7b lit: " ++ Text.decimal s.shown ++ ", .. \x7d"

/-! ## Pixels -/

/-- A screen has pixels inside its edges, and nowhere else. -/
theorem get?_isSome (s : Screen) (x y : Nat) :
    (s.get? x y).isSome ↔ x < screenWidth ∧ y < screenHeight := by
  unfold get?
  by_cases hx : x < screenWidth <;> simp [hx]

/-- A screen is given by its pixels. -/
theorem ext_get? {s t : Screen} (h : ∀ x y, s.get? x y = t.get? x y) : s = t := by
  cases s with
  | mk columns =>
    cases t with
    | mk columns' =>
      refine congrArg mk (Vector.ext fun x hx => Vector.ext fun y hy => ?_)
      have hSame := h x y
      simpa only [get?, Vector.getElem?_eq_getElem hx, Option.bind_some,
        Vector.getElem?_eq_getElem hy, Option.some.injEq] using hSame

/-- Setting a pixel changes that pixel only. -/
theorem get?_set (s : Screen) (x y : Nat) (p : Pixel) (x' y' : Nat) :
    (s.set x y p).get? x' y' =
      if x = x' ∧ y = y' then (s.get? x' y').map fun _ => p else s.get? x' y' := by
  unfold set
  by_cases hx : x < screenWidth
  · rw [Vector.getElem?_eq_getElem hx]
    by_cases hColumn : x = x'
    · subst hColumn
      by_cases hRow : y = y'
      · subst hRow
        by_cases hy : y < screenHeight <;> simp [get?, hx, hy]
      · simp [get?, hx, hRow]
    · simp [get?, hColumn]
  · rw [Vector.getElem?_eq_none (Nat.le_of_not_lt hx)]
    by_cases hSame : x = x' ∧ y = y'
    · rcases hSame with ⟨rfl, rfl⟩
      simp [get?, hx]
    · rw [if_neg hSame]

theorem get?_clearCollisions (s : Screen) (x y : Nat) :
    s.clearCollisions.get? x y = (s.get? x y).map Pixel.settle := by
  unfold get? clearCollisions
  cases hColumn : s.columns[x]? with
  | none => simp [hColumn]
  | some column => simp [hColumn]

end Screen

/-! ## Drawing -/

/-- A drawing under way: the screen so far, and whether a pixel that was shown has been
covered. -/
structure Drawing where
  screen : Screen
  collided : Bool

namespace Drawing

/-- Covers the pixel at column `x` and row `y`. Outside the screen there is nothing to
cover. -/
def cover (d : Drawing) (x y : Nat) : Drawing :=
  match d.screen.get? x y with
  | some p => ⟨d.screen.set x y p.cover, d.collided || p.isShown⟩
  | none => d

/-- Draws the pixel that is `k` columns from the left edge of a sprite, if its bit is
set. -/
def drawBit (x₀ y : Nat) (row : UInt8) (d : Drawing) (k : Nat) : Drawing :=
  if row.toNat.testBit (7 - k) then d.cover (x₀ + k) y else d

/-- Draws a row of a sprite into row `y` of the screen, from column `x₀` up to the
edge. -/
def drawRow (d : Drawing) (x₀ y : Nat) (row : UInt8) : Drawing :=
  ((List.range 8).takeWhile fun k => x₀ + k < screenWidth).foldl (drawBit x₀ y row) d

/-- Draws rows of a sprite, one below the other from row `y` of the screen on. -/
def drawRows (d : Drawing) (x₀ y : Nat) : List UInt8 → Drawing
  | [] => d
  | row :: rows => (d.drawRow x₀ y row).drawRows x₀ (y + 1) rows

end Drawing

namespace Screen

/-- Draws a sprite whose upper left corner is at `x₀` and `y₀`, and of its rows no more
than the screen has. -/
def drawing (s : Screen) (x₀ y₀ : Nat) (rows : List UInt8) : Drawing :=
  Drawing.drawRows ⟨s.clearCollisions, false⟩ x₀ y₀ (rows.take screenHeight)

/-- The screen after a sprite is drawn. -/
def draw (s : Screen) (x₀ y₀ : Nat) (rows : List UInt8) : Screen := (s.drawing x₀ y₀ rows).screen

/-- Whether drawing a sprite covers a pixel that is shown. -/
def collides (s : Screen) (x₀ y₀ : Nat) (rows : List UInt8) : Bool :=
  (s.drawing x₀ y₀ rows).collided

end Screen

end Chip8
