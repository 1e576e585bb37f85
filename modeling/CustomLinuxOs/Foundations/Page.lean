import Mathlib.Tactic
import Mathlib.Data.List.GetD

/-!
Pages of fixed width with rows without end.

* `Page`: the cells of a page, and a cursor in one of its columns.
* `put`, `fill`, `newline`, `carriageReturn`: filling cells one after the other and moving the
  cursor.  A row that is full ends at once.
* `top`, `window`: the last rows of a page, down to the one of the cursor, that a screen shows.
* `position`, `cellAt`: cells and the cursor as numbers, row after row.
* `back`: the cursor goes back over a cell; `back_putAll` goes back over all that have been filled.
-/

namespace CustomLinuxOs

/-- Cells by row and column, and the cursor. -/
structure Page (cols : ℕ) (α : Type*) where
  cell : ℕ → ℕ → α
  row : ℕ
  col : ℕ
  col_lt : col < cols

namespace Page

variable {cols : ℕ} {α : Type*}

lemma cols_pos (p : Page cols α) : 0 < cols := lt_of_le_of_lt (Nat.zero_le _) p.col_lt

variable (p : Page cols α)

/-- The cell under the cursor is filled, and the cursor moves on. -/
def put (a : α) : Page cols α where
  cell := Function.update p.cell p.row (Function.update (p.cell p.row) p.col a)
  row := if p.col + 1 = cols then p.row + 1 else p.row
  col := if p.col + 1 = cols then 0 else p.col + 1
  col_lt := by
    have h := p.col_lt
    split
    · exact p.cols_pos
    · omega

/-- The cursor goes to the start of the next row. -/
def newline : Page cols α := { p with row := p.row + 1, col := 0, col_lt := p.cols_pos }

/-- The cursor goes to the start of its row. -/
def carriageReturn : Page cols α := { p with col := 0, col_lt := p.cols_pos }

/-- Filling `n` cells. -/
def fill (a : α) : ℕ → Page cols α → Page cols α
  | 0, p => p
  | n + 1, p => fill a n (p.put a)

/-- The first row that a screen of `rows` rows shows. -/
def top (rows : ℕ) : ℕ := p.row + 1 - rows

/-- What a screen of `rows` rows shows. -/
def window (rows : ℕ) (r c : ℕ) : α := p.cell (p.top rows + r) c

lemma put_cell (a : α) (r c : ℕ) :
    (p.put a).cell r c = if r = p.row ∧ c = p.col then a else p.cell r c := by
  simp only [put]
  rcases eq_or_ne r p.row with rfl | hr
  · rw [Function.update_self]
    rcases eq_or_ne c p.col with rfl | hc
    · rw [Function.update_self, if_pos ⟨rfl, rfl⟩]
    · rw [Function.update_of_ne hc, if_neg fun h => hc h.2]
  · rw [Function.update_of_ne hr, if_neg fun h => hr h.1]

/-- The cursor after a cell is the next one, or the start of the next row. -/
lemma put_cursor (a : α) :
    (p.col + 1 = cols ∧ (p.put a).row = p.row + 1 ∧ (p.put a).col = 0)
      ∨ (p.col + 1 ≠ cols ∧ (p.put a).row = p.row ∧ (p.put a).col = p.col + 1) := by
  rcases eq_or_ne (p.col + 1) cols with h | h
  · exact Or.inl ⟨h, if_pos h, if_pos h⟩
  · exact Or.inr ⟨h, if_neg h, if_neg h⟩

/-! ### Row after row -/

/-- The number of cells before the cursor. -/
def position : ℕ := cols * p.row + p.col

/-- The cell that has `q` others before it. -/
def cellAt (q : ℕ) : α := p.cell (q / cols) (q % cols)

/-- Cells filled one after the other. -/
def putAll (as : List α) : Page cols α := as.foldl put p

/-- The cursor goes back to the cell before it, which is filled. -/
def back (a : α) : Page cols α where
  cell :=
    let q := p.position - 1
    Function.update p.cell (q / cols) (Function.update (p.cell (q / cols)) (q % cols) a)
  row := (p.position - 1) / cols
  col := (p.position - 1) % cols
  col_lt := Nat.mod_lt _ p.cols_pos

lemma cell_eq_cellAt {r c : ℕ} (hc : c < cols) : p.cell r c = p.cellAt (cols * r + c) := by
  rw [cellAt, Nat.mul_add_div (by omega), Nat.div_eq_of_lt hc, Nat.add_zero, Nat.mul_add_mod,
    Nat.mod_eq_of_lt hc]

lemma row_eq : p.row = p.position / cols := by
  rw [position, Nat.mul_add_div p.cols_pos, Nat.div_eq_of_lt p.col_lt, Nat.add_zero]

lemma col_eq : p.col = p.position % cols := by
  rw [position, Nat.mul_add_mod, Nat.mod_eq_of_lt p.col_lt]

/-- A cell is determined by its number. -/
lemma div_mod_eq_iff {m q q' : ℕ} : q / m = q' / m ∧ q % m = q' % m ↔ q = q' := by
  constructor
  · rintro ⟨hdiv, hmod⟩
    rw [← Nat.div_add_mod q m, hdiv, hmod, Nat.div_add_mod]
  · rintro rfl
    exact ⟨rfl, rfl⟩

@[simp] lemma put_position (a : α) : (p.put a).position = p.position + 1 := by
  rcases p.put_cursor a with ⟨hend, hrow, hcol⟩ | ⟨-, hrow, hcol⟩
  · rw [position, position, hrow, hcol, Nat.mul_succ]
    omega
  · rw [position, position, hrow, hcol]
    rfl

lemma put_cellAt (a : α) (q : ℕ) :
    (p.put a).cellAt q = if q = p.position then a else p.cellAt q := by
  rw [cellAt, put_cell]
  refine if_congr ?_ rfl rfl
  rw [row_eq, col_eq, div_mod_eq_iff]

@[simp] lemma back_position (a : α) : (p.back a).position = p.position - 1 :=
  Nat.div_add_mod _ _

lemma back_cellAt (a : α) (q : ℕ) :
    (p.back a).cellAt q = if q = p.position - 1 then a else p.cellAt q := by
  simp only [cellAt, back]
  rcases eq_or_ne (q / cols) ((p.position - 1) / cols) with hr | hr
  · rw [← hr, Function.update_self]
    rcases eq_or_ne (q % cols) ((p.position - 1) % cols) with hc | hc
    · rw [← hc, Function.update_self, if_pos (div_mod_eq_iff.mp ⟨hr, hc⟩)]
    · rw [Function.update_of_ne hc, if_neg fun h => hc (by rw [h])]
  · rw [Function.update_of_ne hr, if_neg fun h => hr (by rw [h])]

@[simp] lemma putAll_position (as : List α) :
    (p.putAll as).position = p.position + as.length := by
  induction as generalizing p with
  | nil => rfl
  | cons a as ih =>
      rw [putAll, List.foldl_cons, ← putAll, ih, put_position, List.length_cons]
      omega

lemma putAll_append (as bs : List α) : p.putAll (as ++ bs) = (p.putAll as).putAll bs :=
  List.foldl_append

/-- **Filled cells** hold what they have been filled with, in order. -/
lemma putAll_cellAt (as : List α) (q : ℕ) :
    (p.putAll as).cellAt q
      = if p.position ≤ q then as.getD (q - p.position) (p.cellAt q) else p.cellAt q := by
  induction as generalizing p with
  | nil => simp [putAll]
  | cons a as ih =>
      rw [putAll, List.foldl_cons, ← putAll, ih, put_position, put_cellAt]
      rcases Nat.lt_trichotomy q p.position with hlt | rfl | hgt
      · rw [if_neg (by omega), if_neg (by omega), if_neg (by omega)]
      · rw [if_neg (by omega), if_pos rfl, if_pos le_rfl, Nat.sub_self, List.getD_cons_zero]
      · have hnext : q - p.position = q - (p.position + 1) + 1 := by omega
        rw [if_pos (by omega), if_neg (by omega), if_pos (by omega), hnext, List.getD_cons_succ]

lemma iterate_back_position (a : α) (n : ℕ) :
    ((back · a)^[n] p).position = p.position - n := by
  induction n with
  | zero => rfl
  | succ n ih => rw [Function.iterate_succ_apply', back_position, ih, Nat.sub_sub]

/-- The cells the cursor has gone back over, of which there are not more than before it. -/
lemma iterate_back_cellAt (a : α) {n : ℕ} (hn : n ≤ p.position) (q : ℕ) :
    ((back · a)^[n] p).cellAt q
      = if p.position - n ≤ q ∧ q < p.position then a else p.cellAt q := by
  induction n with
  | zero => rw [if_neg (by omega), Function.iterate_zero_apply]
  | succ n ih =>
      rw [Function.iterate_succ_apply', back_cellAt, iterate_back_position, ih (by omega)]
      by_cases hq : q = p.position - n - 1
      · rw [if_pos hq, if_pos (by omega)]
      · rw [if_neg hq]
        refine if_congr ?_ rfl rfl
        omega

/-- **Back over what has been filled**: the cursor is where it was, and those cells are blank. -/
lemma back_putAll (as : List α) (a : α) :
    ((back · a)^[as.length] (p.putAll as)).position = p.position
      ∧ ∀ q, ((back · a)^[as.length] (p.putAll as)).cellAt q
        = if p.position ≤ q ∧ q < p.position + as.length then a else p.cellAt q := by
  refine ⟨by rw [iterate_back_position, putAll_position, Nat.add_sub_cancel], fun q => ?_⟩
  rw [iterate_back_cellAt _ _ (by rw [putAll_position]; omega), putAll_position,
    Nat.add_sub_cancel]
  by_cases hq : p.position ≤ q ∧ q < p.position + as.length
  · rw [if_pos hq, if_pos hq]
  · rw [if_neg hq, if_neg hq, putAll_cellAt]
    split
    · rw [List.getD_eq_default _ _ (by omega)]
    · rfl

end Page

end CustomLinuxOs
