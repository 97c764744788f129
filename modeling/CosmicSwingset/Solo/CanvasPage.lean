import CosmicSwingset.Foundation.Transition
import Mathlib.Data.List.Nodup
import Mathlib.Data.List.Range

/-!
# The canvas of the page

`updateCanvas` of `html/main.js` draws the gallery: the first state makes one element for each cell
of a grid that is as wide as the state and as high as its longest column (`initCanvas`), and later
ones change the elements of the cells whose colour differs from that in `oldState` (`renderPixel`).
Of an element there are its cell and its colour; the class `updated`, which starts an animation in
an element that is changed, is left out. A state is the list of its columns. A colour that the
browser does not accept is not assigned, so the element stays as it is, or transparent.

A call throws in the middle if it comes to a cell that differs and has no column in `oldState` or no
element; what it has drawn by then stays. Whatever states come, the elements show `oldState`
(`shows_updateAll`). A later call completes exactly when all its cells lie in the first state's
grid, and then lays its state over the old one (`updateCanvas_iff_within`), so that while all states
have one shape the page is as if the last state had been drawn first (`updateCanvas_of_shape`).
-/

set_option autoImplicit false
set_option relaxedAutoImplicit false

namespace CosmicSwingset.Solo

open Foundation

/-- The columns of a canvas, each from top to bottom. -/
abbrev Canvas := List (List String)

/-- The element of a cell, and its background colour; `id` is made of the two coordinates. -/
structure Pixel where
  x : ℕ
  y : ℕ
  backgroundColor : String
  deriving DecidableEq

/-- What the page draws with: `oldState`, and the children of `galleryNode`. -/
structure CanvasPage where
  oldState : Option Canvas
  pixels : List Pixel
  deriving DecidableEq

/-- `state[x][y]`, where a missing column throws (`none`) and a missing cell is undefined. -/
def cell (state : Canvas) (x y : ℕ) : Option (Option String) :=
  state[x]?.map fun column ↦ column[y]?

/-- `state.reduce((prior, column) => Math.max(prior, column.length), 0)`. -/
def maxHeight (state : Canvas) : ℕ := state.foldl (fun prior column ↦ max prior column.length) 0

section Code

variable (css : String → Bool)

/-- Assigning to `style.backgroundColor`. -/
def assign (current : String) : Option String → String
  | none => current
  | some color => if css color then color else current

def initCanvas (state : Canvas) : List Pixel :=
  (List.range (maxHeight state)).flatMap fun y ↦
    (List.range state.length).map fun x ↦
      ⟨x, y, assign css "" ((cell state x y).join)⟩

/-- `document.getElementById` of a cell finds its first element. -/
def hasPixel (pixels : List Pixel) (x y : ℕ) : Bool := pixels.any fun px ↦ px.x = x ∧ px.y = y

/-- The element after the two assignments. -/
def Pixel.paint (color : String) (px : Pixel) : Pixel :=
  { px with backgroundColor := assign css "transparent" (some color) }

/-- The two assignments to the element of a cell. -/
def paint (x y : ℕ) (color : String) : List Pixel → List Pixel
  | [] => []
  | px :: rest =>
    if px.x = x ∧ px.y = y then px.paint css color :: rest else px :: paint x y color rest

/-- `oldState[x][y] = color`. -/
def setCell (state : Canvas) (x y : ℕ) (color : String) : Canvas :=
  state.modify x fun column ↦ column.take y ++ color :: column.drop (y + 1)

/-- `renderPixel`, which throws (`none`) before it changes anything if the cell has no element; the
class `updated` is left out. -/
def renderPixel (page : CanvasPage) (x y : ℕ) (color : String) : Option CanvasPage :=
  if hasPixel page.pixels x y then some
    { oldState := page.oldState.map fun oldState ↦ setCell oldState x y color
      pixels := paint css x y color page.pixels }
  else none

/-- The inner loop over a column from `y` on, and whether it completes. -/
def renderColumn (x : ℕ) : CanvasPage → ℕ → List String → CanvasPage × Bool
  | page, _, [] => (page, true)
  | page, y, newcolor :: rest =>
    match page.oldState.bind fun oldState ↦ cell oldState x y with
    | none => (page, false)
    | some old =>
      if old = some newcolor then renderColumn x page (y + 1) rest
      else
        match renderPixel css page x y newcolor with
        | none => (page, false)
        | some page => renderColumn x page (y + 1) rest

/-- The outer loop over the columns from `x` on, and whether it completes. -/
def renderColumns : CanvasPage → ℕ → Canvas → CanvasPage × Bool
  | page, _, [] => (page, true)
  | page, x, column :: rest =>
    match renderColumn css x page 0 column with
    | (page, false) => (page, false)
    | (page, true) => renderColumns page (x + 1) rest

/-- `updateCanvas`, and whether it returns. -/
def updateCanvas (page : CanvasPage) (state : Canvas) : CanvasPage × Bool :=
  match page.oldState with
  | none => ({ oldState := some state, pixels := initCanvas css state }, true)
  | some _ => renderColumns css page 0 state

/-- The page after it has handled some states; a call that throws is logged. -/
def updateAll (page : CanvasPage) (states : List Canvas) : CanvasPage :=
  states.foldl (fun page state ↦ (updateCanvas css page state).1) page

/-- The page before any state, on elements that an earlier connection may have left. -/
def CanvasPage.fresh (pixels : List Pixel) : CanvasPage := ⟨none, pixels⟩

end Code

/-! ### Cells -/

theorem cell_eq_none_iff {state : Canvas} {x y : ℕ} : cell state x y = none ↔ state.length ≤ x := by
  rw [cell, Option.map_eq_none_iff, List.getElem?_eq_none_iff]

theorem cell_of_column {state : Canvas} {x : ℕ} {column : List String}
    (hcolumn : state[x]? = some column) (y : ℕ) : cell state x y = some column[y]? := by
  rw [cell, hcolumn, Option.map_some]

/-- A column with other colours from the row `y` on. -/
def layColumn (y : ℕ) (colors column : List String) : List String :=
  column.take y ++ colors ++ column.drop (y + colors.length)

theorem layColumn_nil (y : ℕ) (column : List String) : layColumn y [] column = column := by
  rw [layColumn, List.append_nil, List.length_nil, Nat.add_zero, List.take_append_drop]

/-- One cell, and then the rest of the column. -/
theorem layColumn_cons {y : ℕ} {column : List String} (hy : y ≤ column.length) (color : String)
    (colors : List String) :
    layColumn y (color :: colors) column =
      layColumn (y + 1) colors (column.take y ++ color :: column.drop (y + 1)) := by
  have htake : (column.take y).length = y := List.length_take_of_le hy
  have hfirst : (column.take y ++ color :: column.drop (y + 1)).take (y + 1) =
      column.take y ++ [color] := by
    rw [List.take_append, htake, List.take_of_length_le (by omega)]
    simp
  have hrest : (column.take y ++ color :: column.drop (y + 1)).drop (y + 1 + colors.length) =
      column.drop (y + (color :: colors).length) := by
    rw [List.drop_append, htake, List.drop_of_length_le (by omega), List.nil_append,
      show y + 1 + colors.length - y = colors.length + 1 by omega, List.drop_succ_cons,
      List.drop_drop, List.length_cons]
    congr 1
    omega
  rw [layColumn, layColumn, hfirst, hrest, List.append_assoc, List.append_assoc, List.append_assoc]
  rfl

/-- A cell that already has its colour. -/
theorem layColumn_cons_of_eq {y : ℕ} {column : List String} {color : String}
    (hcolor : column[y]? = some color) (colors : List String) :
    layColumn y (color :: colors) column = layColumn (y + 1) colors column := by
  have htake : column.take (y + 1) = column.take y ++ [color] := by
    rw [List.take_add_one, hcolor, Option.toList_some]
  rw [layColumn, layColumn, htake, List.length_cons, List.append_assoc, List.append_assoc,
    List.append_assoc, Nat.add_right_comm y 1, Nat.add_assoc]
  rfl

/-- Two changes of a column that make the same of it. -/
theorem modify_congr {state : Canvas} {x : ℕ} {column : List String}
    (hcolumn : state[x]? = some column)
    {f g : List String → List String} (h : f column = g column) :
    state.modify x f = state.modify x g := by
  apply List.ext_getElem?
  intro i
  rw [List.getElem?_modify, List.getElem?_modify]
  by_cases hi : x = i
  · subst hi
    rw [hcolumn]
    simp [h]
  · simp [hi]

/-- A state over an older one, whose cells show where the new state has none. -/
def overlay : Canvas → Canvas → Canvas
  | [], _ => []
  | old, [] => old
  | column :: old, colors :: state => layColumn 0 colors column :: overlay old state

theorem overlay_nil (old : Canvas) : overlay old [] = old := by
  cases old <;> rfl

/-- Laying a column over its own place. -/
theorem take_overlay_drop {old : Canvas} {x : ℕ} {column : List String}
    (hcolumn : old[x]? = some column) (colors : List String) (state : Canvas) :
    (old.modify x (layColumn 0 colors)).take (x + 1) ++
        overlay ((old.modify x (layColumn 0 colors)).drop (x + 1)) state =
      old.take x ++ overlay (old.drop x) (colors :: state) := by
  obtain ⟨hx, hget⟩ := List.getElem?_eq_some_iff.mp hcolumn
  have hdrop : old.drop x = column :: old.drop (x + 1) := by
    rw [List.drop_eq_getElem_cons hx, hget]
  have htake : (old.modify x (layColumn 0 colors)).take (x + 1) =
      old.take x ++ [layColumn 0 colors column] := by
    rw [List.take_add_one, List.take_modify, List.modify_eq_self (List.length_take_le x old),
      List.getElem?_modify_eq, hcolumn]
    rfl
  have hrest : (old.modify x (layColumn 0 colors)).drop (x + 1) = old.drop (x + 1) :=
    List.drop_modify_of_lt _ _ _ _ (Nat.lt_succ_self x)
  rw [htake, hrest, hdrop, List.append_assoc]
  rfl

/-- `oldState[x][y] = color` in a column that has all the rows before. -/
theorem cell_setCell {old : Canvas} {x y : ℕ} {column : List String}
    (hcolumn : old[x]? = some column) (hy : y ≤ column.length) (color : String) (i j : ℕ) :
    cell (setCell old x y color) i j =
      if i = x ∧ j = y then some (some color) else cell old i j := by
  have htake : (column.take y).length = y := List.length_take_of_le hy
  rw [cell, setCell, List.getElem?_modify]
  by_cases hi : x = i
  · subst hi
    rw [hcolumn, cell_of_column hcolumn]
    simp only [if_true, Option.map_eq_map, Option.map_some, true_and]
    rcases lt_trichotomy j y with hlt | rfl | hgt
    · rw [if_neg hlt.ne, List.getElem?_append_left (by omega), List.getElem?_take_of_lt hlt]
    · rw [if_pos rfl, List.getElem?_append_right (by omega), htake, Nat.sub_self]
      rfl
    · rw [if_neg hgt.ne', List.getElem?_append_right (by omega), htake]
      obtain ⟨d, rfl⟩ := Nat.exists_eq_add_of_lt hgt
      rw [show y + d + 1 - y = d + 1 by omega, List.getElem?_cons_succ, List.getElem?_drop]
      congr 2
      omega
  · rw [if_neg (fun h ↦ hi h.1.symm)]
    simp [hi, cell]

/-! ### Elements -/

/-- The cells of a grid, by rows. -/
def gridCells (width height : ℕ) : List (ℕ × ℕ) :=
  (List.range height).flatMap fun y ↦ (List.range width).map fun x ↦ (x, y)

theorem mem_gridCells {width height x y : ℕ} :
    (x, y) ∈ gridCells width height ↔ x < width ∧ y < height := by
  simp only [gridCells, List.mem_flatMap, List.mem_map, List.mem_range, Prod.mk.injEq]
  constructor
  · rintro ⟨y', hy, x', hx, rfl, rfl⟩
    exact ⟨hx, hy⟩
  · rintro ⟨hx, hy⟩
    exact ⟨y, hy, x, hx, rfl, rfl⟩

theorem nodup_gridCells (width height : ℕ) : (gridCells width height).Nodup := by
  rw [gridCells, List.nodup_flatMap]
  constructor
  · intro y _
    exact List.nodup_range.map fun x x' h ↦ (Prod.mk.inj h).1
  · refine List.nodup_range.imp fun {y y'} hne ↦ ?_
    refine List.disjoint_left.mpr fun p hp hp' ↦ ?_
    obtain ⟨x, -, rfl⟩ := List.mem_map.mp hp
    obtain ⟨x', -, hx'⟩ := List.mem_map.mp hp'
    exact hne (Prod.mk.inj hx').2.symm

/-- The cell of an element. -/
def Pixel.at (px : Pixel) : ℕ × ℕ := (px.x, px.y)

section Pixels

variable {css : String → Bool}

theorem hasPixel_iff {pixels : List Pixel} {x y : ℕ} :
    hasPixel pixels x y = true ↔ (x, y) ∈ pixels.map Pixel.at := by
  simp [hasPixel, Pixel.at]

theorem map_at_paint (x y : ℕ) (color : String) (pixels : List Pixel) :
    (paint css x y color pixels).map Pixel.at = pixels.map Pixel.at := by
  induction pixels with
  | nil => rfl
  | cons px rest ih =>
    rw [paint]
    split_ifs
    · rfl
    · rw [List.map_cons, List.map_cons, ih]

/-- An element after the one of a cell was painted is that one, or one of another cell. -/
theorem mem_paint {x y : ℕ} {color : String} {pixels : List Pixel}
    (hnodup : (pixels.map Pixel.at).Nodup) {px : Pixel} (hpx : px ∈ paint css x y color pixels) :
    px.at = (x, y) ∧ px.backgroundColor = assign css "transparent" (some color) ∨
      px ∈ pixels ∧ px.at ≠ (x, y) := by
  induction pixels with
  | nil => exact absurd hpx List.not_mem_nil
  | cons first rest ih =>
    rw [List.map_cons, List.nodup_cons] at hnodup
    rw [paint] at hpx
    split_ifs at hpx with hfirst
    · obtain ⟨rfl, rfl⟩ := hfirst
      rcases List.mem_cons.mp hpx with rfl | hrest
      · exact Or.inl ⟨rfl, rfl⟩
      · refine Or.inr ⟨List.mem_cons_of_mem _ hrest, fun hat ↦ hnodup.1 ?_⟩
        exact List.mem_map.mpr ⟨px, hrest, hat⟩
    · rcases List.mem_cons.mp hpx with rfl | hrest
      · exact Or.inr ⟨List.mem_cons_self, fun hat ↦ hfirst (Prod.mk.inj hat)⟩
      · rcases ih hnodup.2 hrest with hpainted | ⟨hold, hat⟩
        · exact Or.inl hpainted
        · exact Or.inr ⟨List.mem_cons_of_mem _ hold, hat⟩

end Pixels

/-! ### What the page shows -/

section Shows

variable {css : String → Bool} {width height : ℕ} {page : CanvasPage} {old : Canvas}

/-- The background of a cell's element: its colour, if the browser accepts it. -/
def Colored (css : String → Bool) : Option String → String → Prop
  | none, background => background = ""
  | some color, background =>
    if css color then background = color else background = "" ∨ background = "transparent"

/-- The page has an element for each cell of a grid, and shows `oldState`, which lies in it. -/
structure Shows (css : String → Bool) (width height : ℕ) (page : CanvasPage) (old : Canvas) :
    Prop where
  oldState : page.oldState = some old
  wide : old.length = width
  high : ∀ column ∈ old, column.length ≤ height
  cells : page.pixels.map Pixel.at = gridCells width height
  colors : ∀ px ∈ page.pixels, Colored css ((cell old px.x px.y).join) px.backgroundColor

theorem colored_assign (css : String → Bool) (color : Option String) :
    Colored css color (assign css "" color) := by
  cases color with
  | none => rfl
  | some color =>
    rw [Colored, assign]
    split_ifs
    · rfl
    · exact Or.inl rfl

theorem le_maxHeight {state : Canvas} {column : List String} (h : column ∈ state) :
    column.length ≤ maxHeight state := by
  have hfold : ∀ prior, prior ≤ state.foldl (fun prior column ↦ max prior column.length) prior ∧
      ∀ column ∈ state, column.length ≤
        state.foldl (fun prior column ↦ max prior column.length) prior := by
    clear h
    induction state with
    | nil => exact fun prior ↦ ⟨le_rfl, List.forall_mem_nil _⟩
    | cons first rest ih =>
      intro prior
      obtain ⟨hprior, hrest⟩ := ih (max prior first.length)
      refine ⟨(le_max_left _ _).trans hprior, List.forall_mem_cons.mpr ⟨?_, hrest⟩⟩
      exact (le_max_right _ _).trans hprior
  exact (hfold 0).2 column h

/-- The first state. -/
theorem shows_init (css : String → Bool) (state : Canvas) :
    Shows css state.length (maxHeight state)
      { oldState := some state, pixels := initCanvas css state } state where
  oldState := rfl
  wide := rfl
  high := fun _ hcolumn ↦ le_maxHeight hcolumn
  cells := by
    rw [initCanvas, gridCells, List.map_flatMap]
    refine congrArg (List.flatMap · _) (funext fun y ↦ ?_)
    rw [List.map_map]
    rfl
  colors := fun px hpx ↦ by
    obtain ⟨y, -, hx⟩ := List.mem_flatMap.mp hpx
    obtain ⟨x, -, rfl⟩ := List.mem_map.mp hx
    exact colored_assign css _

namespace Shows

/-- One cell of a column that has all the rows before. -/
theorem renderPixel (h : Shows css width height page old) {x y : ℕ} {column : List String}
    (hcolumn : old[x]? = some column) (hy : y ≤ column.length) (color : String) :
    (y < height → ∃ page', Solo.renderPixel css page x y color = some page' ∧
      Shows css width height page' (setCell old x y color)) ∧
    (height ≤ y → Solo.renderPixel css page x y color = none) := by
  have hx : x < width := h.wide ▸ (List.getElem?_eq_some_iff.mp hcolumn).1
  have hhas : hasPixel page.pixels x y = true ↔ y < height := by
    rw [hasPixel_iff, h.cells, mem_gridCells]
    exact and_iff_right hx
  constructor
  · intro hlt
    refine ⟨_, if_pos (hhas.mpr hlt), ?_, ?_, ?_, ?_, ?_⟩
    · rw [h.oldState, Option.map_some]
    · rw [setCell, List.length_modify, h.wide]
    · intro other hother
      obtain ⟨i, hi⟩ := List.mem_iff_getElem?.mp hother
      rw [setCell, List.getElem?_modify] at hi
      by_cases hxi : x = i
      · subst hxi
        simp only [hcolumn, if_true, Option.map_eq_map, Option.map_some, Option.some.injEq] at hi
        have hheight := h.high column (List.mem_of_getElem? hcolumn)
        rw [← hi, List.length_append, List.length_cons, List.length_take_of_le hy,
          List.length_drop]
        omega
      · simp only [if_neg hxi, Option.map_eq_map, Option.map_id_fun', id] at hi
        exact h.high other (List.mem_of_getElem? hi)
    · rw [map_at_paint, h.cells]
    · intro px hpx
      rw [cell_setCell hcolumn hy]
      have hnodup : (page.pixels.map Pixel.at).Nodup := h.cells ▸ nodup_gridCells width height
      rcases mem_paint hnodup hpx with ⟨hat, hbackground⟩ | ⟨hold, hat⟩
      · rw [if_pos (Prod.mk.inj hat), hbackground, assign, Option.join_some, Colored]
        split_ifs
        · rfl
        · exact Or.inr rfl
      · rw [if_neg (fun heq ↦ hat (Prod.ext heq.1 heq.2))]
        exact h.colors px hold
  · intro hle
    exact if_neg (fun hpixel ↦ absurd (hhas.mp hpixel) (not_lt.mpr hle))

/-- The loop over a column from a row on, where all the rows before are there: it completes if it
stays in the grid, and then the column has the new colours. -/
theorem renderColumn (h : Shows css width height page old) {x y : ℕ} {column : List String}
    (hcolumn : old[x]? = some column) (hy : y ≤ column.length) (colors : List String) :
    ((Solo.renderColumn css x page y colors).2 = true ↔ y + colors.length ≤ height) ∧
      ∃ old', Shows css width height (Solo.renderColumn css x page y colors).1 old' ∧
        ((Solo.renderColumn css x page y colors).2 = true →
          old' = old.modify x (layColumn y colors)) := by
  induction colors generalizing page old y column with
  | nil =>
    have hheight := h.high column (List.mem_of_getElem? hcolumn)
    refine ⟨iff_of_true rfl (hy.trans hheight), old, h, fun _ ↦ ?_⟩
    have hid : layColumn y [] = id := funext fun column ↦ layColumn_nil y column
    rw [hid, List.modify_id]
  | cons color colors ih =>
    have hcell : page.oldState.bind (fun oldState ↦ cell oldState x y) = some column[y]? := by
      rw [h.oldState, Option.bind_some, cell_of_column hcolumn]
    have hcount : y + (color :: colors).length = y + 1 + colors.length := by
      rw [List.length_cons]
      omega
    simp only [Solo.renderColumn, hcell]
    by_cases hsame : column[y]? = some color
    · -- the cell has its colour already
      simp only [if_pos hsame]
      have hlt : y + 1 ≤ column.length := (List.getElem?_eq_some_iff.mp hsame).1
      obtain ⟨hiff, old', hshows, hlaid⟩ := ih h hcolumn hlt
      refine ⟨hcount ▸ hiff, old', hshows, fun hok ↦ (hlaid hok).trans ?_⟩
      exact modify_congr hcolumn (layColumn_cons_of_eq hsame colors).symm
    · simp only [if_neg hsame]
      obtain ⟨hinside, houtside⟩ := h.renderPixel hcolumn hy color
      by_cases hrow : y < height
      · obtain ⟨page', hpage, hshows⟩ := hinside hrow
        simp only [hpage]
        have hset : (setCell old x y color)[x]? =
            some (column.take y ++ color :: column.drop (y + 1)) := by
          rw [setCell, List.getElem?_modify_eq, hcolumn]
          rfl
        have hlength : y + 1 ≤ (column.take y ++ color :: column.drop (y + 1)).length := by
          rw [List.length_append, List.length_take_of_le hy, List.length_cons]
          omega
        obtain ⟨hiff, old', hshows', hlaid⟩ := ih hshows hset hlength
        refine ⟨hcount ▸ hiff, old', hshows', fun hok ↦ (hlaid hok).trans ?_⟩
        rw [setCell, List.modify_modify_eq]
        exact modify_congr hcolumn (layColumn_cons hy color colors).symm
      · simp only [houtside (not_lt.mp hrow)]
        refine ⟨iff_of_false Bool.false_ne_true ?_, old, h, fun hok ↦ absurd hok Bool.false_ne_true⟩
        rw [List.length_cons]
        omega

/-- The loop over a column that `oldState` does not have. -/
theorem renderColumn_missing (h : Shows css width height page old) {x : ℕ} (hx : width ≤ x)
    (colors : List String) :
    Solo.renderColumn css x page 0 colors = (page, decide (colors = [])) := by
  cases colors with
  | nil => rfl
  | cons color colors =>
    have hcell : page.oldState.bind (fun oldState ↦ cell oldState x 0) = none := by
      rw [h.oldState, Option.bind_some]
      exact cell_eq_none_iff.mpr (h.wide.trans_le hx)
    simp only [Solo.renderColumn, hcell]
    rfl

end Shows

/-- The cells of a state whose first column is the one at `x` are in a grid. -/
def WithinFrom (width height x : ℕ) (state : Canvas) : Prop :=
  ∀ i column, state[i]? = some column → column = [] ∨ x + i < width ∧ column.length ≤ height

/-- All cells of a state are in a grid. -/
def Within (width height : ℕ) (state : Canvas) : Prop := WithinFrom width height 0 state

theorem withinFrom_cons {x : ℕ} {column : List String} {state : Canvas} :
    WithinFrom width height x (column :: state) ↔
      (column = [] ∨ x < width ∧ column.length ≤ height) ∧
        WithinFrom width height (x + 1) state := by
  constructor
  · intro h
    refine ⟨h 0 column rfl, fun i other hother ↦ ?_⟩
    have hnext := h (i + 1) other hother
    rwa [show x + (i + 1) = x + 1 + i by omega] at hnext
  · rintro ⟨hfirst, hrest⟩ i other hother
    cases i with
    | zero =>
      obtain rfl := Option.some.inj hother
      exact hfirst
    | succ i =>
      have hnext := hrest i other hother
      rwa [show x + 1 + i = x + (i + 1) by omega] at hnext

/-- The loop over the columns from a column on: it completes if the state stays in the grid, and is
then laid over the old one. -/
theorem Shows.renderColumns (h : Shows css width height page old) (x : ℕ) (state : Canvas) :
    ((Solo.renderColumns css page x state).2 = true ↔ WithinFrom width height x state) ∧
      ∃ old', Shows css width height (Solo.renderColumns css page x state).1 old' ∧
        ((Solo.renderColumns css page x state).2 = true →
          old' = old.take x ++ overlay (old.drop x) state) := by
  induction state generalizing page old x with
  | nil =>
    refine ⟨iff_of_true rfl fun i column hi ↦ absurd hi (by simp), old, h, fun _ ↦ ?_⟩
    rw [overlay_nil, List.take_append_drop]
  | cons colors state ih =>
    rw [withinFrom_cons]
    simp only [Solo.renderColumns]
    by_cases hx : x < width
    · obtain ⟨column, hcolumn⟩ : ∃ column, old[x]? = some column :=
        ⟨_, List.getElem?_eq_getElem (h.wide.symm ▸ hx)⟩
      obtain ⟨hiff, old', hshows, hlaid⟩ := h.renderColumn hcolumn (Nat.zero_le _) colors
      rw [Nat.zero_add] at hiff
      have hcondition : colors = [] ∨ x < width ∧ colors.length ≤ height ↔
          colors.length ≤ height := by
        constructor
        · rintro (rfl | hinside)
          · exact Nat.zero_le _
          · exact hinside.2
        · exact fun hle ↦ Or.inr ⟨hx, hle⟩
      rw [hcondition, ← hiff]
      cases hresult : Solo.renderColumn css x page 0 colors with
      | mk page' ok =>
        rw [hresult] at hshows hlaid
        cases ok with
        | false =>
          simp only [Bool.false_eq_true, false_and]
          exact ⟨trivial, old', hshows, fun hok ↦ absurd hok id⟩
        | true =>
          obtain rfl := hlaid rfl
          obtain ⟨hrest, final, hfinal, hoverlay⟩ := ih hshows (x + 1)
          refine ⟨by simpa using hrest, final, hfinal, fun hok ↦ ?_⟩
          rw [hoverlay hok, take_overlay_drop hcolumn]
    · have hle := not_lt.mp hx
      have hdrop : ∀ i, width ≤ i → old.drop i = [] := fun i hi ↦
        List.drop_eq_nil_of_le (h.wide.trans_le hi)
      have htake : ∀ i, width ≤ i → old.take i = old := fun i hi ↦
        List.take_of_length_le (h.wide.trans_le hi)
      rw [h.renderColumn_missing hle]
      by_cases hempty : colors = []
      · obtain ⟨hrest, final, hfinal, hoverlay⟩ := ih h (x + 1)
        simp only [hempty, decide_true, true_or, true_and]
        refine ⟨hrest, final, hfinal, fun hok ↦ ?_⟩
        rw [hoverlay hok, hdrop x hle, hdrop (x + 1) (by omega), htake x hle,
          htake (x + 1) (by omega)]
        rfl
      · simp only [hempty, decide_false, hx, false_or, false_and, Bool.false_eq_true]
        exact ⟨trivial, old, h, fun hok ↦ absurd hok id⟩

/-- A later call of `updateCanvas`. -/
theorem Shows.updateCanvas (h : Shows css width height page old) (state : Canvas) :
    ((Solo.updateCanvas css page state).2 = true ↔ Within width height state) ∧
      ∃ old', Shows css width height (Solo.updateCanvas css page state).1 old' ∧
        ((Solo.updateCanvas css page state).2 = true → old' = overlay old state) := by
  have hloops : Solo.updateCanvas css page state = Solo.renderColumns css page 0 state := by
    simp only [Solo.updateCanvas, h.oldState]
  rw [hloops]
  exact h.renderColumns 0 state

theorem updateAll_concat (page : CanvasPage) (states : List Canvas) (state : Canvas) :
    updateAll css page (states ++ [state]) =
      (Solo.updateCanvas css (updateAll css page states) state).1 :=
  List.foldl_concat ..

/-- The page shows `oldState` whatever states have come. -/
theorem shows_updateAll (css : String → Bool) (pixels : List Pixel) (first : Canvas)
    (states : List Canvas) :
    ∃ old, Shows css first.length (maxHeight first)
      (updateAll css (.fresh pixels) (first :: states)) old := by
  induction states using List.reverseRecOn with
  | nil => exact ⟨first, shows_init css first⟩
  | append_singleton states state ih =>
    obtain ⟨old, hold⟩ := ih
    rw [← List.cons_append, updateAll_concat]
    obtain ⟨-, old', hshows, -⟩ := hold.updateCanvas state
    exact ⟨old', hshows⟩

/-- Whatever states a page has handled, completely or not, it has an element for each cell of the
first one's grid, and these show `oldState`. The next call completes exactly when all the cells of
its state are in that grid, and then leaves its state over the old one. -/
theorem updateCanvas_iff_within (css : String → Bool) (pixels : List Pixel) (first : Canvas)
    (states : List Canvas) :
    ∃ old, Shows css first.length (maxHeight first)
        (updateAll css (.fresh pixels) (first :: states)) old ∧
      ∀ state, ((Solo.updateCanvas css (updateAll css (.fresh pixels) (first :: states)) state).2 =
          true ↔ Within first.length (maxHeight first) state) ∧
        (Within first.length (maxHeight first) state →
          Shows css first.length (maxHeight first)
            (updateAll css (.fresh pixels) (first :: states ++ [state])) (overlay old state)) := by
  obtain ⟨old, hold⟩ := shows_updateAll css pixels first states
  refine ⟨old, hold, fun state ↦ ?_⟩
  obtain ⟨hiff, old', hshows, hlaid⟩ := hold.updateCanvas state
  refine ⟨hiff, fun hwithin ↦ ?_⟩
  rw [updateAll_concat, ← hlaid (hiff.mpr hwithin)]
  exact hshows

/-! ### Canvases of one shape -/

/-- The heights of the columns. -/
def shape (state : Canvas) : List ℕ := state.map List.length

theorem maxHeight_eq_of_shape {state state' : Canvas} (h : shape state = shape state') :
    maxHeight state = maxHeight state' := by
  have hfold : ∀ state, maxHeight state = (shape state).foldl max 0 := fun state ↦
    List.foldl_map.symm
  rw [hfold, hfold, h]

theorem overlay_eq_of_shape {old state : Canvas} (h : shape state = shape old) :
    overlay old state = state := by
  induction old generalizing state with
  | nil =>
    rw [shape, shape, List.map_nil, List.map_eq_nil_iff] at h
    rw [h, overlay]
  | cons column old ih =>
    cases state with
    | nil => cases h
    | cons colors state =>
      obtain ⟨hcolumn, hrest⟩ := List.cons.inj h
      rw [overlay, ih hrest, layColumn, List.take_zero, List.nil_append, Nat.zero_add, hcolumn,
        List.drop_length, List.append_nil]

theorem within_of_shape {first state : Canvas} (h : shape state = shape first) :
    Within first.length (maxHeight first) state := by
  intro i column hi
  have hlength : state.length = first.length := by
    simpa [shape] using congrArg List.length h
  have hlt : i < state.length := (List.getElem?_eq_some_iff.mp hi).1
  refine Or.inr ⟨by omega, ?_⟩
  rw [← maxHeight_eq_of_shape h]
  exact le_maxHeight (List.mem_of_getElem? hi)

/-- The browser accepts all the colours. -/
def Accepted (css : String → Bool) (state : Canvas) : Prop :=
  ∀ column ∈ state, ∀ color ∈ column, css color = true

/-- With colours that the browser accepts, what is shown decides the background of every element. -/
theorem Shows.eq_init {state : Canvas} (haccepted : Accepted css state)
    (h : Shows css state.length (maxHeight state) page state) :
    page = { oldState := some state, pixels := initCanvas css state } := by
  have hbackground : ∀ page, Shows css state.length (maxHeight state) page state →
      page.pixels = (gridCells state.length (maxHeight state)).map fun p ↦
        ⟨p.1, p.2, ((cell state p.1 p.2).join.getD "")⟩ := by
    intro page hpage
    rw [← hpage.cells, List.map_map]
    refine (List.map_id _).symm.trans (List.map_congr_left fun px hpx ↦ ?_)
    have hcolor := hpage.colors px hpx
    obtain ⟨x, y, background⟩ := px
    suffices hsame : background = (cell state x y).join.getD "" from
      congrArg (Pixel.mk x y) hsame
    cases hcell : (cell state x y).join with
    | none =>
      rw [hcell] at hcolor
      exact hcolor
    | some color =>
      obtain ⟨column, hcolumn, hrow⟩ :=
        Option.map_eq_some_iff.mp (Option.join_eq_some_iff.mp hcell)
      have haccept := haccepted column (List.mem_of_getElem? hcolumn) color
        (List.mem_of_getElem? hrow)
      rw [hcell, Colored, if_pos haccept] at hcolor
      exact hcolor
  obtain ⟨oldState, pixels⟩ := page
  obtain rfl : oldState = some state := h.oldState
  have hinit := hbackground _ (shows_init css state)
  have hpixels : pixels = initCanvas css state := (hbackground _ h).trans hinit.symm
  rw [hpixels]

theorem shows_of_shape (css : String → Bool) (pixels : List Pixel) (first : Canvas)
    {states : List Canvas} (hshape : ∀ state ∈ states, shape state = shape first) :
    ∃ old, Shows css first.length (maxHeight first)
      (updateAll css (.fresh pixels) (first :: states)) old ∧ shape old = shape first := by
  induction states using List.reverseRecOn with
  | nil => exact ⟨first, shows_init css first, rfl⟩
  | append_singleton states state ih =>
    rw [List.forall_mem_append, List.forall_mem_singleton] at hshape
    obtain ⟨old, hold, hsame⟩ := ih hshape.1
    obtain ⟨hiff, old', hshows, hlaid⟩ := hold.updateCanvas state
    obtain rfl := hlaid (hiff.mpr (within_of_shape hshape.2))
    rw [← List.cons_append, updateAll_concat]
    refine ⟨_, hshows, ?_⟩
    rw [overlay_eq_of_shape (hshape.2.trans hsame.symm)]
    exact hshape.2

/-- The last of some states of one shape, with colours that are accepted, is shown as drawn
first. -/
theorem updateAll_of_shape (css : String → Bool) (pixels : List Pixel) {before : List Canvas}
    {last : Canvas} (hshape : ∀ state ∈ before, shape state = shape last)
    (haccepted : Accepted css last) :
    updateAll css (.fresh pixels) (before ++ [last]) =
      { oldState := some last, pixels := initCanvas css last } := by
  cases before with
  | nil => rfl
  | cons first states =>
    rw [List.forall_mem_cons] at hshape
    obtain ⟨hfirst, hstates⟩ := hshape
    obtain ⟨old, hold, hsame⟩ := shows_of_shape css pixels first fun state hstate ↦
      (hstates state hstate).trans hfirst.symm
    obtain ⟨hiff, old', hshows, hlaid⟩ := hold.updateCanvas last
    obtain rfl := hlaid (hiff.mpr (within_of_shape hfirst.symm))
    have hlength : first.length = last.length := by
      simpa [shape] using congrArg List.length hfirst
    rw [overlay_eq_of_shape (hfirst.symm.trans hsame.symm), hlength,
      maxHeight_eq_of_shape hfirst] at hshows
    rw [updateAll_concat]
    exact hshows.eq_init haccepted

/-- While all states have one shape, and the colours of the last one are accepted, the page is as if
the last state had been drawn first. -/
theorem updateCanvas_of_shape (css : String → Bool) (pixels : List Pixel) (first : Canvas)
    {states : List Canvas} {last : Canvas} (hshape : ∀ state ∈ states, shape state = shape first)
    (hlast : shape last = shape first) (haccepted : Accepted css last) :
    updateAll css (.fresh pixels) (first :: states ++ [last]) =
      updateAll css (.fresh pixels) [last] := by
  have hsame : ∀ state ∈ first :: states, shape state = shape last :=
    List.forall_mem_cons.mpr
      ⟨hlast.symm, fun state hstate ↦ (hshape state hstate).trans hlast.symm⟩
  rw [updateAll_of_shape css pixels hsame haccepted]
  rfl

end Shows

/-- A canvas of two columns, painted twice. -/
theorem updateCanvas_of_shape_painted :
    updateAll (fun color ↦ color ≠ "bogus") (.fresh [])
        ([["red", "bogus"], ["blue", "white"]] :: [[["red", "red"], ["blue", "white"]]] ++
          [[["red", "blue"], ["white", "white"]]]) =
      updateAll (fun color ↦ color ≠ "bogus") (.fresh []) [[["red", "blue"], ["white", "white"]]] :=
  updateCanvas_of_shape _ [] _ (by decide) rfl (by unfold Accepted; decide)

end CosmicSwingset.Solo
