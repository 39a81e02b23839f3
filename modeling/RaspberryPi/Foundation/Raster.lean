import Mathlib.Data.List.Nodup
import Mathlib.Logic.Function.Basic

/-! # Loops that fill a raster

A loop over rows around a loop over columns, whose body may write one value to
one place, or fail. -/

namespace RaspberryPi.Raster

variable {α : Type u} {β : Type v} {γ : Type w}

/-- A loop whose body writes `value` to `address` for the visible cells leaves
these values there and everything else as it was, when no two cells disagree. -/
theorem foldlM_writes [DecidableEq α] {cells : List γ}
    {body : (α → β) → γ → Option (α → β)} {visible : γ → Prop} [DecidablePred visible]
    {address : γ → α} {value : γ → β}
    (writes : ∀ cell ∈ cells, ∀ memory, body memory cell =
      some (if visible cell then Function.update memory (address cell) (value cell) else memory))
    (agree : ∀ first ∈ cells, ∀ second ∈ cells, visible first → visible second →
      address first = address second → value first = value second) (memory : α → β) :
    ∃ final, cells.foldlM body memory = some final ∧
      (∀ cell ∈ cells, visible cell → final (address cell) = value cell) ∧
      ∀ place, (∀ cell ∈ cells, visible cell → address cell ≠ place) →
        final place = memory place := by
  induction cells generalizing memory with
  | nil => exact ⟨memory, rfl, fun _ member => (List.not_mem_nil member).elim, fun _ _ => rfl⟩
  | cons cell cells induction =>
      have step := writes cell List.mem_cons_self memory
      rcases induction (fun other member => writes other (List.mem_cons_of_mem _ member))
          (fun first firstMember second secondMember => agree first
            (List.mem_cons_of_mem _ firstMember) second (List.mem_cons_of_mem _ secondMember))
          (if visible cell then Function.update memory (address cell) (value cell) else memory)
        with ⟨final, rest, written, kept⟩
      refine ⟨final, ?_, ?_, ?_⟩
      · rw [List.foldlM_cons, step]
        exact rest
      · intro other member isVisible
        rcases List.mem_cons.mp member with rfl | member
        · by_cases again : ∃ later ∈ cells, visible later ∧ address later = address other
          · rcases again with ⟨later, laterMember, laterVisible, same⟩
            rw [← same, written later laterMember laterVisible]
            exact agree later (List.mem_cons_of_mem _ laterMember) other List.mem_cons_self
              laterVisible isVisible same
          · have notAgain : ∀ later ∈ cells, visible later → address later ≠ address other :=
              fun later laterMember laterVisible same =>
                again ⟨later, laterMember, laterVisible, same⟩
            rw [kept _ notAgain, if_pos isVisible, Function.update_self]
        · exact written other member isVisible
      · intro place elsewhere
        rw [kept place fun other member => elsewhere other (List.mem_cons_of_mem _ member)]
        by_cases isVisible : visible cell
        · rw [if_pos isVisible, Function.update_of_ne]
          exact (elsewhere cell List.mem_cons_self isVisible).symm
        · rw [if_neg isVisible]

def cells (width height : Nat) : List (Nat × Nat) :=
  (List.range height).flatMap fun row => (List.range width).map fun column => (column, row)

theorem mem_cells {width height column row : Nat} :
    (column, row) ∈ cells width height ↔ column < width ∧ row < height := by
  simp [cells, and_comm]

theorem nodup_cells (width height : Nat) : (cells width height).Nodup := by
  rw [cells, List.nodup_flatMap]
  constructor
  · intro row _
    apply List.nodup_range.map
    intro column other same
    exact congrArg Prod.fst same
  · apply List.nodup_range.imp
    intro row otherRow different
    apply List.disjoint_left.mpr
    intro cell inRow inOther
    rcases List.mem_map.mp inRow with ⟨column, _, rfl⟩
    rcases List.mem_map.mp inOther with ⟨otherColumn, _, same⟩
    exact different (congrArg Prod.snd same).symm

theorem cells_succ (width height : Nat) : cells width (height + 1) =
    cells width height ++ (List.range width).map fun column => (column, height) := by
  simp [cells, List.range_succ]

@[simp] theorem length_cells (width height : Nat) :
    (cells width height).length = height * width := by
  induction height with
  | zero => simp [cells]
  | succ height induction =>
      rw [cells_succ, List.length_append, induction, List.length_map, List.length_range,
        Nat.succ_mul]

theorem cellIndex_lt {width height column row : Nat} (inRow : column < width)
    (inColumn : row < height) : row * width + column < height * width := by
  calc row * width + column < row * width + width := Nat.add_lt_add_left inRow _
    _ = (row + 1) * width := by rw [Nat.succ_mul]
    _ ≤ height * width := Nat.mul_le_mul_right _ inColumn

theorem getElem?_cells {width height column row : Nat} (inRow : column < width)
    (inColumn : row < height) :
    (cells width height)[row * width + column]? = some (column, row) := by
  induction height with
  | zero => exact absurd inColumn (Nat.not_lt_zero row)
  | succ height induction =>
      rw [cells_succ]
      by_cases earlier : row < height
      · rw [List.getElem?_append_left]
        · exact induction earlier
        · rw [length_cells]
          exact cellIndex_lt inRow earlier
      · obtain rfl : row = height := by omega
        rw [List.getElem?_append_right (by simp)]
        simp [inRow]

theorem cell_eq_of_index_eq {width column row otherColumn otherRow : Nat} (inside : column < width)
    (otherInside : otherColumn < width)
    (same : row * width + column = otherRow * width + otherColumn) :
    column = otherColumn ∧ row = otherRow := by
  have positive : 0 < width := by omega
  have rows : row = otherRow := by
    have quotient := congrArg (· / width) same
    simpa [Nat.mul_comm _ width, Nat.mul_add_div positive, Nat.div_eq_of_lt inside,
      Nat.div_eq_of_lt otherInside] using quotient
  subst rows
  exact ⟨Nat.add_left_cancel same, rfl⟩

/-- `for (row...) for (column...) body`. -/
def sweep (width height : Nat) (body : Nat → Nat → γ → Option γ) (memory : γ) : Option γ :=
  (List.range height).foldlM (fun memory row =>
    (List.range width).foldlM (fun memory column => body column row memory) memory) memory

theorem sweep_eq_foldlM_cells (width height : Nat) (body : Nat → Nat → γ → Option γ) (memory : γ) :
    sweep width height body memory =
      (cells width height).foldlM (fun memory cell => body cell.1 cell.2 memory) memory := by
  rw [sweep, cells]
  induction List.range height generalizing memory with
  | nil => rfl
  | cons row rows induction =>
      simp only [List.foldlM_cons, List.flatMap_cons, List.foldlM_append, List.foldlM_map,
        induction]

theorem foldlM_congr {cells : List α} {body other : γ → α → Option γ}
    (same : ∀ cell ∈ cells, ∀ memory, body memory cell = other memory cell) (memory : γ) :
    cells.foldlM body memory = cells.foldlM other memory := by
  induction cells generalizing memory with
  | nil => rfl
  | cons cell cells induction =>
      rw [List.foldlM_cons, List.foldlM_cons, same cell List.mem_cons_self]
      apply congrArg
      funext following
      exact induction (fun later member => same later (List.mem_cons_of_mem _ member)) following

theorem isSome_foldlM_iff {cells : List α} {body : γ → α → Option γ} {defined : α → Prop}
    (alike : ∀ cell ∈ cells, ∀ memory, (body memory cell).isSome ↔ defined cell) (memory : γ) :
    (cells.foldlM body memory).isSome ↔ ∀ cell ∈ cells, defined cell := by
  induction cells generalizing memory with
  | nil => exact iff_of_true rfl fun cell member => (List.not_mem_nil member).elim
  | cons cell cells induction =>
      have first := alike cell List.mem_cons_self memory
      have later := induction fun other member => alike other (List.mem_cons_of_mem _ member)
      rw [List.foldlM_cons, List.forall_mem_cons, ← first]
      cases body memory cell with
      | none => simp
      | some following => simpa using later following

theorem isSome_sweep_iff {width height : Nat} {body : Nat → Nat → γ → Option γ}
    {defined : Nat → Nat → Prop}
    (alike : ∀ column < width, ∀ row < height, ∀ memory,
      (body column row memory).isSome ↔ defined column row) (memory : γ) :
    (sweep width height body memory).isSome ↔
      ∀ column < width, ∀ row < height, defined column row := by
  have cellAlike : ∀ cell ∈ cells width height, ∀ memory,
      (body cell.1 cell.2 memory).isSome ↔ defined cell.1 cell.2 := by
    rintro ⟨column, row⟩ member
    rcases mem_cells.mp member with ⟨inRow, inColumn⟩
    exact alike column inRow row inColumn
  rw [sweep_eq_foldlM_cells, isSome_foldlM_iff cellAlike memory]
  constructor
  · intro all column inRow row inColumn
    exact all (column, row) (mem_cells.mpr ⟨inRow, inColumn⟩)
  · rintro all ⟨column, row⟩ member
    rcases mem_cells.mp member with ⟨inRow, inColumn⟩
    exact all column inRow row inColumn

theorem sweep_writes [DecidableEq α] {width height : Nat}
    {body : Nat → Nat → (α → β) → Option (α → β)}
    {visible : Nat → Nat → Prop} [∀ column row, Decidable (visible column row)]
    {address : Nat → Nat → α} {value : Nat → Nat → β}
    (writes : ∀ column < width, ∀ row < height, ∀ memory, body column row memory =
      some (if visible column row then
        Function.update memory (address column row) (value column row) else memory))
    (apart : ∀ column row otherColumn otherRow, visible column row → visible otherColumn otherRow →
      address column row = address otherColumn otherRow → column = otherColumn ∧ row = otherRow)
    (memory : α → β) :
    ∃ final, sweep width height body memory = some final ∧
      ∀ column < width, ∀ row < height, visible column row →
        final (address column row) = value column row := by
  have cellWrites : ∀ cell ∈ cells width height, ∀ memory, body cell.1 cell.2 memory =
      some (if visible cell.1 cell.2 then
        Function.update memory (address cell.1 cell.2) (value cell.1 cell.2) else memory) := by
    rintro ⟨column, row⟩ member
    rcases mem_cells.mp member with ⟨inRow, inColumn⟩
    exact writes column inRow row inColumn
  have agree : ∀ first ∈ cells width height, ∀ second ∈ cells width height,
      visible first.1 first.2 → visible second.1 second.2 →
      address first.1 first.2 = address second.1 second.2 →
      value first.1 first.2 = value second.1 second.2 := by
    intro first _ second _ firstVisible secondVisible same
    rcases apart _ _ _ _ firstVisible secondVisible same with ⟨sameColumn, sameRow⟩
    rw [sameColumn, sameRow]
  rcases foldlM_writes cellWrites agree memory with ⟨final, run, written, _⟩
  refine ⟨final, ?_, fun column inRow row inColumn isVisible => ?_⟩
  · rw [sweep_eq_foldlM_cells]
    exact run
  · exact written (column, row) (mem_cells.mpr ⟨inRow, inColumn⟩) isVisible

/-! ## Loops that give one value to an area -/

def Paints {σ : Type w} (read : σ → α → β) (value : β) (area : α → Prop) (step : σ → σ) : Prop :=
  ∀ state place, (area place → read (step state) place = value) ∧
    (¬area place → read (step state) place = read state place)

theorem Paints.congr {σ : Type w} {read : σ → α → β} {value : β} {area other : α → Prop}
    {step : σ → σ} (paints : Paints read value area step)
    (same : ∀ place, area place ↔ other place) : Paints read value other step := by
  intro state place
  rw [← same place]
  exact paints state place

theorem Paints.foldl {σ : Type w} {read : σ → α → β} {value : β} {cells : List γ}
    {body : σ → γ → σ} {area : γ → α → Prop}
    (rounds : ∀ cell ∈ cells, Paints read value (area cell) fun state => body state cell) :
    Paints read value (fun place => ∃ cell ∈ cells, area cell place)
      fun state => cells.foldl body state := by
  induction cells with
  | nil =>
      intro state place
      refine ⟨?_, fun _ => rfl⟩
      rintro ⟨cell, member, _⟩
      exact (List.not_mem_nil member).elim
  | cons cell cells induction =>
      have first := rounds cell List.mem_cons_self
      have later := induction fun other member => rounds other (List.mem_cons_of_mem _ member)
      intro state place
      rcases first state place with ⟨painted, kept⟩
      rcases later (body state cell) place with ⟨paintedLater, keptLater⟩
      constructor
      · rintro ⟨other, member, inArea⟩
        by_cases again : ∃ other ∈ cells, area other place
        · exact paintedLater again
        · rcases List.mem_cons.mp member with rfl | member
          · exact (keptLater again).trans (painted inArea)
          · exact absurd ⟨other, member, inArea⟩ again
      · intro outside
        have notLater : ¬∃ other ∈ cells, area other place := by
          rintro ⟨other, member, inArea⟩
          exact outside ⟨other, List.mem_cons_of_mem _ member, inArea⟩
        have notFirst : ¬area cell place := fun inArea =>
          outside ⟨cell, List.mem_cons_self, inArea⟩
        exact (keptLater notLater).trans (kept notFirst)

theorem foldl_foldl_eq_cells {σ : Type w} (width height : Nat) (body : σ → Nat → Nat → σ)
    (state : σ) :
    (List.range height).foldl (fun state row =>
      (List.range width).foldl (fun state column => body state column row) state) state =
      (cells width height).foldl (fun state cell => body state cell.1 cell.2) state := by
  simp [cells, List.foldl_flatMap, List.foldl_map]

/-! ## Loops that log what they write -/

theorem foldlM_append {cells : List α} {piece : α → Option (List β)} {values : α → List β}
    (defined : ∀ cell ∈ cells, piece cell = some (values cell)) (log : List β) :
    cells.foldlM (fun log cell => (piece cell).map (log ++ ·)) log =
      some (log ++ cells.flatMap values) := by
  induction cells generalizing log with
  | nil => simp
  | cons cell cells induction =>
      have later := induction fun other member => defined other (List.mem_cons_of_mem _ member)
      simp [defined cell List.mem_cons_self, later]

theorem isSome_of_foldlM_append {cells : List α} {piece : α → Option (List β)} {log final : List β}
    (ran : cells.foldlM (fun log cell => (piece cell).map (log ++ ·)) log = some final) :
    ∀ cell ∈ cells, (piece cell).isSome := by
  induction cells generalizing log with
  | nil => exact fun cell member => (List.not_mem_nil member).elim
  | cons first cells induction =>
      rw [List.foldlM_cons] at ran
      rcases Option.bind_eq_some_iff.mp ran with ⟨extended, step, rest⟩
      intro cell member
      rcases List.mem_cons.mp member with rfl | member
      · rcases Option.map_eq_some_iff.mp step with ⟨written, defined, _⟩
        exact Option.isSome_of_eq_some defined
      · exact induction rest cell member

theorem sweep_append {width height : Nat} {piece : Nat → Nat → Option (List β)}
    {values : Nat → Nat → List β}
    (defined : ∀ column < width, ∀ row < height, piece column row = some (values column row)) :
    sweep width height (fun column row log => (piece column row).map (log ++ ·)) [] =
      some ((cells width height).flatMap fun cell => values cell.1 cell.2) := by
  rw [sweep_eq_foldlM_cells]
  apply foldlM_append
  rintro ⟨column, row⟩ member
  rcases mem_cells.mp member with ⟨inRow, inColumn⟩
  exact defined column inRow row inColumn

/-- Nested loops that came to their end: every round was defined, and the log has
what the rounds wrote and nothing else. -/
theorem sweep_append_eq_some {width height : Nat} {piece : Nat → Nat → Option (List β)}
    {final : List β}
    (ran : sweep width height (fun column row log => (piece column row).map (log ++ ·)) [] =
      some final) :
    ∃ values : Nat → Nat → List β,
      (∀ column < width, ∀ row < height, piece column row = some (values column row)) ∧
        final = (cells width height).flatMap fun cell => values cell.1 cell.2 := by
  have defined : ∀ column < width, ∀ row < height,
      piece column row = some ((piece column row).getD []) := by
    intro column inRow row inColumn
    rw [sweep_eq_foldlM_cells] at ran
    have isSome := isSome_of_foldlM_append ran (column, row) (mem_cells.mpr ⟨inRow, inColumn⟩)
    rcases Option.isSome_iff_exists.mp isSome with ⟨written, equal⟩
    rw [show piece column row = some written from equal]
    rfl
  refine ⟨fun column row => (piece column row).getD [], defined, ?_⟩
  exact Option.some.inj (ran.symm.trans (sweep_append defined))

theorem range_two_mul (count : Nat) :
    List.range (2 * count) = (List.range count).flatMap fun pair => [pair * 2, pair * 2 + 1] := by
  induction count with
  | zero => rfl
  | succ count induction =>
      rw [Nat.mul_succ, List.range_succ, List.range_succ, List.range_succ, List.flatMap_append,
        ← induction]
      simp [Nat.mul_comm]

theorem map_cells_pairs (count height : Nat) (value : Nat → Nat → β) :
    ((cells count height).flatMap fun cell =>
        [value (cell.1 * 2) cell.2, value (cell.1 * 2 + 1) cell.2]) =
      (cells (2 * count) height).map fun cell => value cell.1 cell.2 := by
  simp [cells, range_two_mul, List.map_flatMap, List.flatMap_assoc, List.flatMap_map]

end RaspberryPi.Raster
