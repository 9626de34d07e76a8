import Chip8.Machine.Screen

/-!
# What a drawing leaves on the screen

A sprite is drawn in two nested loops, which change the screen in place and cut the
sprite off in three ways: a row ends at the right edge, pixels below the bottom edge are
not there, and no more rows are looked at than the screen has. What comes of it is said
here pixel by pixel, without the loops.

Covering a pixel twice is not the same as covering it once, so that a loop is described
by the pixels that it covers *once*. Parts of a drawing that have no pixel in common are
put together, and pixels outside the screen do not count, which takes care of everything
that is cut off.

## Main definitions

* `spriteBit` — the bit of a sprite for a pixel, whether the pixel is on the screen or
  not.
* `Drawing.CoversOnce` — what a part of a drawing does to the screen.
* `Drawing.Reports` — the collisions are those that have been reported.
* `Screen.picture` — the pixels that are lit, without the collisions.

## Main results

* `CoversOnce.trans`, `CoversOnce.congr` — parts of a drawing, and pixels outside the
  screen.
* `get?_draw` — the screen after a drawing, pixel by pixel.
* `draw_clipped_xor` — drawing is the exclusive or with the sprite, and reports
  collisions.
-/

namespace Chip8

/-- The bit of a sprite for the pixel at column `x` and row `y`, if the upper left
corner of the sprite is at `x₀` and `y₀`. -/
def spriteBit (x₀ y₀ : Nat) (rows : List UInt8) (x y : Nat) : Bool :=
  x₀ ≤ x && x < x₀ + 8 && y₀ ≤ y &&
    (rows[y - y₀]?).any fun row => row.toNat.testBit (7 - (x - x₀))

/-- Rows that the screen does not have do not matter to its pixels. -/
theorem spriteBit_take (x₀ y₀ : Nat) (rows : List UInt8) {x y : Nat} (hRow : y < screenHeight) :
    spriteBit x₀ y₀ (rows.take screenHeight) x y = spriteBit x₀ y₀ rows x y := by
  have hInside : y - y₀ < screenHeight := Nat.lt_of_le_of_lt (Nat.sub_le y y₀) hRow
  rw [spriteBit, spriteBit, List.getElem?_take_of_lt hInside]

namespace Drawing

variable {d d' d'' : Drawing} {f g : Nat → Nat → Bool}

/-! ## Parts of a drawing -/

/-- One drawing comes from the other by covering every pixel of a set once, and no other
pixel. -/
def CoversOnce (d d' : Drawing) (pixels : Nat → Nat → Bool) : Prop :=
  ∀ x y, d'.screen.get? x y =
    if pixels x y then (d.screen.get? x y).map Pixel.cover else d.screen.get? x y

/-- Only the pixels of the screen count. -/
theorem CoversOnce.congr (hCovers : d.CoversOnce d' f)
    (hSame : ∀ x < screenWidth, ∀ y < screenHeight, f x y = g x y) : d.CoversOnce d' g := by
  intro x y
  rw [hCovers x y]
  by_cases hInside : x < screenWidth ∧ y < screenHeight
  · rw [hSame x hInside.1 y hInside.2]
  · have hNone : d.screen.get? x y = none := by
      rw [← Option.not_isSome_iff_eq_none, Screen.get?_isSome]
      exact hInside
    simp [hNone]

/-- Parts that have no pixel in common are put together. -/
theorem CoversOnce.trans (hFirst : d.CoversOnce d' f) (hNext : d'.CoversOnce d'' g)
    (hApart : ∀ x y, f x y = true → g x y = false) :
    d.CoversOnce d'' fun x y => f x y || g x y := by
  intro x y
  rw [hNext x y, hFirst x y]
  cases hPixel : f x y with
  | true => simp [hPixel, hApart x y hPixel]
  | false => simp [hPixel]

private theorem coversOnce_cover (d : Drawing) (x y : Nat) :
    d.CoversOnce (d.cover x y) fun x' y' => x = x' && y = y' := by
  intro x' y'
  unfold cover
  by_cases hHere : x = x' ∧ y = y'
  · rcases hHere with ⟨rfl, rfl⟩
    cases hPixel : d.screen.get? x y with
    | none => simp [hPixel]
    | some p => simp [Screen.get?_set, hPixel]
  · cases d.screen.get? x y with
    | none => simp [hHere]
    | some p => simp [Screen.get?_set, hHere]

private theorem coversOnce_drawBit (d : Drawing) (x₀ y : Nat) (row : UInt8) (k : Nat) :
    d.CoversOnce (drawBit x₀ y row d k) fun x' y' =>
      x₀ + k = x' && y = y' && row.toNat.testBit (7 - k) := by
  unfold drawBit
  cases hBit : row.toNat.testBit (7 - k) with
  | true => exact (d.coversOnce_cover (x₀ + k) y).congr fun x _ y _ => by simp
  | false => exact fun x y => by simp

/-- The columns from the left edge of a sprite on, as many as are drawn. -/
theorem coversOnce_foldl_drawBit (d : Drawing) (x₀ y : Nat) (row : UInt8) (n : Nat) :
    d.CoversOnce ((List.range n).foldl (drawBit x₀ y row) d) fun x' y' =>
      y = y' && x₀ ≤ x' && x' < x₀ + n && row.toNat.testBit (7 - (x' - x₀)) := by
  induction n with
  | zero =>
      refine fun x' y' => (if_neg ?_).symm
      grind
  | succ n ih =>
      -- Column `n` is to the right of all columns before it.
      rw [List.range_succ, List.foldl_append]
      refine (ih.trans (coversOnce_drawBit _ x₀ y row n) ?_).congr ?_
      · grind
      · grind

/-- Columns are drawn up to the right edge of the screen. -/
theorem takeWhile_range (n x₀ width : Nat) :
    ((List.range n).takeWhile fun k => x₀ + k < width) = List.range (min n (width - x₀)) := by
  induction n with
  | zero => simp
  | succ n ih =>
      rw [List.range_succ, List.takeWhile_append, ih, List.length_range, List.length_range]
      by_cases hInside : x₀ + n < width
      · have hAll : min n (width - x₀) = n := by omega
        have hMore : min (n + 1) (width - x₀) = n + 1 := by omega
        rw [hAll, hMore, if_pos rfl, List.takeWhile_cons_of_pos (by simpa using hInside),
          List.takeWhile_nil, List.range_succ]
      · have hSame : min (n + 1) (width - x₀) = min n (width - x₀) := by omega
        rw [hSame, List.takeWhile_cons_of_neg (by simpa using hInside), List.append_nil]
        split
        · rename_i hAll
          rw [hAll]
        · rfl

private theorem coversOnce_drawRow (d : Drawing) (x₀ y : Nat) (row : UInt8) :
    d.CoversOnce (d.drawRow x₀ y row) (spriteBit x₀ y [row]) := by
  rw [drawRow, takeWhile_range]
  refine (d.coversOnce_foldl_drawBit x₀ y row _).congr fun x hx y' _ => ?_
  unfold spriteBit
  grind

private theorem spriteBit_cons (x₀ y₀ : Nat) (row : UInt8) (rows : List UInt8) (x y : Nat) :
    spriteBit x₀ y₀ (row :: rows) x y =
      (spriteBit x₀ y₀ [row] x y || spriteBit x₀ (y₀ + 1) rows x y) := by
  unfold spriteBit
  grind

private theorem coversOnce_drawRows (d : Drawing) (x₀ y : Nat) (rows : List UInt8) :
    d.CoversOnce (d.drawRows x₀ y rows) (spriteBit x₀ y rows) := by
  induction rows generalizing d y with
  | nil => exact fun x' y' => by simp [drawRows, spriteBit]
  | cons row rows ih =>
      -- The other rows are below the first one.
      refine ((d.coversOnce_drawRow x₀ y row).trans (ih _ (y + 1)) ?_).congr ?_
      · unfold spriteBit
        grind
      · exact fun x' _ y' _ => (spriteBit_cons x₀ y row rows x' y').symm

/-! ## Collisions -/

/-- A collision has been reported exactly if there is one on the screen. -/
def Reports (d : Drawing) : Prop :=
  d.collided = true ↔ ∃ x y, d.screen.get? x y = some .collision

/-- Covering a pixel that is shown makes a collision of it and reports that. Covering
another one removes no collision, since it was none. -/
theorem Reports.cover (hReports : d.Reports) (x y : Nat) : (d.cover x y).Reports := by
  cases hPixel : d.screen.get? x y with
  | none =>
      rw [Drawing.cover, hPixel]
      exact hReports
  | some p =>
      have hCover : d.cover x y = ⟨d.screen.set x y p.cover, d.collided || p.isShown⟩ := by
        rw [Drawing.cover, hPixel]
      have hHere : (d.screen.set x y p.cover).get? x y = some p.cover := by
        rw [Screen.get?_set, if_pos ⟨rfl, rfl⟩, hPixel, Option.map_some]
      rw [hCover]
      cases p with
      | lit | collision => exact ⟨fun _ => ⟨x, y, hHere⟩, fun _ => Bool.or_true _⟩
      | empty =>
          have hSilent : (d.collided || Pixel.empty.isShown) = d.collided := Bool.or_false _
          rw [hSilent]
          refine Iff.trans hReports (exists_congr fun x' => exists_congr fun y' => ?_)
          by_cases hSame : x = x' ∧ y = y'
          · rcases hSame with ⟨rfl, rfl⟩
            rw [hHere, hPixel]
            decide
          · rw [Screen.get?_set, if_neg hSame]

private theorem Reports.foldl_drawBit (hReports : d.Reports) (x₀ y : Nat) (row : UInt8)
    (columns : List Nat) : (columns.foldl (drawBit x₀ y row) d).Reports := by
  induction columns generalizing d with
  | nil => exact hReports
  | cons k columns ih =>
      refine ih ?_
      unfold drawBit
      split
      · exact hReports.cover (x₀ + k) y
      · exact hReports

theorem Reports.drawRows (hReports : d.Reports) (x₀ y : Nat) (rows : List UInt8) :
    (d.drawRows x₀ y rows).Reports := by
  induction rows generalizing d y with
  | nil => exact hReports
  | cons row rows ih => exact ih (hReports.foldl_drawBit x₀ y row _) (y + 1)

end Drawing

/-! ## Whole drawings -/

namespace Screen

variable (s : Screen) (x₀ y₀ : Nat) (rows : List UInt8)

/-- The screen after a drawing, pixel by pixel. -/
theorem get?_draw (x y : Nat) :
    (s.draw x₀ y₀ rows).get? x y = (s.get? x y).map fun p =>
      if spriteBit x₀ y₀ rows x y then p.settle.cover else p.settle := by
  have hCovers : Drawing.CoversOnce ⟨s.clearCollisions, false⟩ (s.drawing x₀ y₀ rows)
      (spriteBit x₀ y₀ rows) :=
    (Drawing.coversOnce_drawRows _ x₀ y₀ _).congr fun _ _ _ hRow => spriteBit_take x₀ y₀ rows hRow
  refine (hCovers x y).trans ?_
  rw [get?_clearCollisions]
  cases s.get? x y with
  | none => simp
  | some p => split <;> rfl

/-- Before a drawing begins there is no collision, and none has been reported. -/
private theorem reports_drawing : (s.drawing x₀ y₀ rows).Reports := by
  refine Drawing.Reports.drawRows ?_ x₀ y₀ _
  refine ⟨nofun, ?_⟩
  rintro ⟨x, y, hCollision⟩
  rw [get?_clearCollisions, Option.map_eq_some_iff] at hCollision
  rcases hCollision with ⟨p, -, hSettled⟩
  cases p <;> cases hSettled

/-- The pixels that are lit, without the collisions. -/
def picture (s : Screen) (x y : Nat) : Bool := s.get? x y = some .lit

/-- Drawing a sprite anywhere, also partly or wholly outside the screen, first puts out
the collisions. A pixel for which the sprite has a bit is then lit if it is empty, and
otherwise it becomes a collision; every other pixel stays. A collision is reported
exactly if there is one on the screen afterwards. Read without collisions, the picture
is the exclusive or of the one before and the part of the sprite that is on the screen,
and drawing the sprite again undoes it. -/
theorem draw_clipped_xor :
    (∀ x y, (s.draw x₀ y₀ rows).get? x y = (s.get? x y).map fun old =>
      let p : Pixel := if old = .collision then .empty else old
      if spriteBit x₀ y₀ rows x y then (if p = .empty then .lit else .collision) else p) ∧
    (s.collides x₀ y₀ rows = true ↔ ∃ x y, (s.draw x₀ y₀ rows).get? x y = some .collision) ∧
    (∀ x y, (s.draw x₀ y₀ rows).picture x y =
      (s.picture x y ^^
        (spriteBit x₀ y₀ rows x y && x < screenWidth && y < screenHeight))) ∧
    ((s.draw x₀ y₀ rows).draw x₀ y₀ rows).clearCollisions = s.clearCollisions := by
  refine ⟨fun x y => ?_, s.reports_drawing x₀ y₀ rows, fun x y => ?_, ext_get? fun x y => ?_⟩
  · rw [get?_draw]
    refine congrArg (Option.map · _) (funext fun p => ?_)
    cases p <;> rfl
  · unfold picture
    rw [get?_draw]
    have hInside := s.get?_isSome x y
    cases hPixel : s.get? x y with
    | none =>
        have hOutside : ¬ (x < screenWidth ∧ y < screenHeight) := by simpa [hPixel] using hInside
        grind
    | some p =>
        obtain ⟨hColumn, hRow⟩ : x < screenWidth ∧ y < screenHeight := by
          simpa [hPixel] using hInside
        simp only [hColumn, hRow, decide_true, Bool.and_true, Option.map_some]
        cases spriteBit x₀ y₀ rows x y <;> cases p <;> rfl
  · simp only [get?_clearCollisions, get?_draw, Option.map_map]
    refine congrArg (Option.map · _) (funext fun p => ?_)
    cases spriteBit x₀ y₀ rows x y <;> cases p <;> rfl

/-- A sprite in the lower right corner, of which two pixels are on the screen. -/
example : (clear.draw 62 31 [0xFF, 0xFF]).get? 63 31 = some .lit := by decide +kernel

end Screen

end Chip8
