import ControlBlocks.Memoryless.Matrix
import ControlBlocks.Memoryless.RealMath
import ControlBlocks.Proofs.Binary64.Extremes

/-!
# Matrices line by line

What a matrix block gives for each row, and for each column.

* `Matrix.Malformed`, `HasColumns` — the matrices that are refused, and those that are accepted;
* `Matrix.IsTranspose` — rows and columns exchanged; `isTranspose_iff`;
* `LineByLine` — a matrix block does to each row what another block does to a vector, and to the
  columns what it does to the rows of the transpose; `lineByLine`;
* `extrema_congr` — without zeros of both signs in a line, it is of no account which of two equal
  values is picked;
* `matrices_line_by_line` — the extrema and the product line by line.
-/

set_option autoImplicit false

namespace ControlBlocks.Matrix

open Binary64 (Picks Ranks BothZeros picks_larger picks_smaller ranks_lt)

/-! ## Shapes -/

section Shapes

variable {α : Type} {u v w : List (List α)} {c i j : ℕ}

/-- No rows, an empty row, or rows of different lengths. -/
def Malformed (u : List (List α)) : Prop :=
  u = [] ∨ [] ∈ u ∨ ∃ row ∈ u, ∃ row' ∈ u, row.length ≠ row'.length

/-- At least one row and one column, and rows of that many columns. -/
structure HasColumns (u : List (List α)) (c : ℕ) : Prop where
  rows : u ≠ []
  pos : 0 < c
  even : ∀ row ∈ u, row.length = c

theorem HasColumns.not_malformed (h : HasColumns u c) : ¬ Malformed u := by
  rintro (hrows | hempty | ⟨row, hrow, row', hrow', hne⟩)
  · exact h.rows hrows
  · exact h.pos.ne (h.even [] hempty)
  · exact hne ((h.even row hrow).trans (h.even row' hrow').symm)

/-- The columns are counted just where a matrix is well formed. -/
theorem columns?_cases (u : List (List α)) :
    columns? u = none ∧ Malformed u ∨ ∃ c, columns? u = some c ∧ HasColumns u c := by
  cases u with
  | nil => exact .inl ⟨rfl, .inl rfl⟩
  | cons row rest =>
    rw [columns?]
    split_ifs with h
    · refine .inr ⟨row.length, rfl, ⟨List.cons_ne_nil row rest, h.1, ?_⟩⟩
      simpa using h.2
    · refine .inl ⟨rfl, ?_⟩
      rcases Nat.eq_zero_or_pos row.length with hempty | hpos
      · rw [List.length_eq_zero_iff.1 hempty]
        exact .inr (.inl List.mem_cons_self)
      · have ragged : ∃ row' ∈ row :: rest, row'.length ≠ row.length := by
          by_contra hall
          push Not at hall
          exact h ⟨hpos, by simpa using hall⟩
        obtain ⟨row', hrow', hne⟩ := ragged
        exact .inr (.inr ⟨row', hrow', row, List.mem_cons_self, hne⟩)

theorem columns?_of_malformed (h : Malformed u) : columns? u = none := by
  rcases columns?_cases u with ⟨hnone, -⟩ | ⟨c, -, hc⟩
  · exact hnone
  · exact absurd h hc.not_malformed

theorem columns?_of_hasColumns (h : HasColumns u c) : columns? u = some c := by
  rcases columns?_cases u with ⟨-, hmal⟩ | ⟨c', hsome, hc'⟩
  · exact absurd hmal h.not_malformed
  · obtain ⟨row, hrow⟩ := List.exists_mem_of_ne_nil u h.rows
    rw [hsome, ← h.even row hrow, hc'.even row hrow]

/-- A matrix that is not malformed has as many columns as each of its rows has entries. -/
theorem exists_hasColumns (h : ¬ Malformed u) : ∃ c, HasColumns u c := by
  rcases columns?_cases u with ⟨-, hmal⟩ | ⟨c, -, hc⟩
  · exact absurd hmal h
  · exact ⟨c, hc⟩

/-- The entry in a row and a column. -/
def entryAt (u : List (List α)) (i j : ℕ) : Option α := u[i]?.bind fun row => row[j]?

/-- The rows of the one matrix are the columns of the other. -/
structure IsTranspose (u v : List (List α)) : Prop where
  nonempty : [] ∉ v
  entries : ∀ i j, entryAt v j i = entryAt u i j

theorem exists_entryAt (hv : [] ∉ v) (hi : i < v.length) : (entryAt v i 0).isSome := by
  have row : v[i] ≠ [] := fun h => hv (h ▸ List.getElem_mem hi)
  rw [entryAt, List.getElem?_eq_getElem hi, Option.bind_some]
  simpa using List.length_pos_iff.2 row

theorem lt_length_of_entryAt_eq (hv : [] ∉ v) (h : ∀ i j, entryAt v i j = entryAt w i j)
    (hi : i < v.length) : i < w.length := by
  have some := exists_entryAt hv hi
  rw [h] at some
  by_contra hout
  simp [entryAt, List.getElem?_eq_none (not_lt.1 hout)] at some

/-- Without empty rows, a matrix is given by its entries. -/
theorem eq_of_entryAt_eq (hv : [] ∉ v) (hw : [] ∉ w) (h : ∀ i j, entryAt v i j = entryAt w i j) :
    v = w := by
  have inside (i : ℕ) : i < v.length ↔ i < w.length :=
    ⟨lt_length_of_entryAt_eq hv h, lt_length_of_entryAt_eq hw fun i j => (h i j).symm⟩
  refine List.ext_getElem (eq_of_forall_lt_iff inside) fun i hi hi' => ?_
  refine List.ext_getElem? fun j => ?_
  simpa [entryAt, hi, hi'] using h i j

theorem column_cons {row : List α} (hj : j < row.length) (u : List (List α)) :
    column (row :: u) j = row[j] :: column u j := by
  rw [column, List.filterMap_cons, List.getElem?_eq_getElem hj]
  rfl

/-- If all rows are long enough, a column has an entry of each. -/
theorem length_column (h : ∀ row ∈ u, j < row.length) : (column u j).length = u.length := by
  induction u with
  | nil => rfl
  | cons row rest ih =>
    obtain ⟨hrow, hrest⟩ := List.forall_mem_cons.1 h
    rw [column_cons hrow, List.length_cons, List.length_cons, ih hrest]

theorem getElem?_column (h : ∀ row ∈ u, j < row.length) (i : ℕ) :
    (column u j)[i]? = entryAt u i j := by
  induction u generalizing i with
  | nil => rfl
  | cons row rest ih =>
    obtain ⟨hrow, hrest⟩ := List.forall_mem_cons.1 h
    rw [column_cons hrow]
    cases i with
    | zero => exact (List.getElem?_eq_getElem hrow).symm
    | succ i => exact ih hrest i

/-- The columns of a matrix. -/
def columnsOf (u : List (List α)) (c : ℕ) : List (List α) := (List.range c).map (column u)

theorem hasColumns_columnsOf (h : HasColumns u c) : HasColumns (columnsOf u c) u.length where
  rows := by simpa [columnsOf] using h.pos.ne'
  pos := List.length_pos_iff.2 h.rows
  even line hline := by
    obtain ⟨j, hj, rfl⟩ := List.mem_map.1 hline
    exact length_column fun row hrow => (List.mem_range.1 hj).trans_eq (h.even row hrow).symm

theorem isTranspose_columnsOf (h : HasColumns u c) : IsTranspose u (columnsOf u c) where
  nonempty hempty := (hasColumns_columnsOf h).not_malformed (.inr (.inl hempty))
  entries i j := by
    rcases lt_or_ge j c with hj | hj
    · rw [entryAt, columnsOf, List.getElem?_map, List.getElem?_range hj]
      exact getElem?_column (fun row hrow => hj.trans_eq (h.even row hrow).symm) i
    · have none : (List.range c)[j]? = none := by simpa using hj
      rw [entryAt, columnsOf, List.getElem?_map, none, entryAt]
      cases hrow : u[i]? with
      | none => rfl
      | some row =>
        have short : row.length ≤ j := (h.even row (List.mem_of_getElem? hrow)).trans_le hj
        exact (List.getElem?_eq_none short).symm

theorem isTranspose_iff (h : HasColumns u c) : IsTranspose u v ↔ v = columnsOf u c := by
  have columns := isTranspose_columnsOf h
  constructor
  · intro hv
    exact eq_of_entryAt_eq hv.nonempty columns.nonempty fun i j =>
      (hv.entries j i).trans (columns.entries j i).symm
  · rintro rfl
    exact columns

end Shapes

/-! ## Extrema -/

section Extrema

variable {u : List (List Float)} {wins : Float → Float → Prop} {f g : Float → Float → Float}
  {c : ℕ} {name : String}

/-- What a block makes of a matrix line by line: it fails just if the matrix is malformed; by rows
it gives what another block gives of each row; and by columns what it gives by rows of the
transpose, of which there is one. -/
structure LineByLine (matrix : Bool → Block Float (List (List Float)) Unit (List Float))
    (vector : Block Float (List Float) Unit Float) (u : List (List Float)) : Prop where
  fails_iff : ∀ byRow now, (∃ f, (matrix byRow).step now () u = .error f) ↔ Malformed u
  rows : ¬ Malformed u → ∃ ys, (∀ now, (matrix true).step now () u = .ok (ys, ())) ∧
    List.Forall₂ (fun row y => ∀ now, vector.step now () row = .ok (y, ())) u ys
  columns : ¬ Malformed u → ∃ v, (∀ w, IsTranspose u w ↔ w = v) ∧
    ∀ now, (matrix false).step now () u = (matrix true).step now () v

theorem extrema_of_malformed (h : Malformed u) (byRow : Bool) :
    extrema name f byRow u =
      .error (.domain name "input must be a non-empty rectangular matrix"
        ((u.length : ℤ) : Float)) := by
  rw [extrema, columns?_of_malformed h]

theorem extrema_of_hasColumns (h : HasColumns u c) (byRow : Bool) :
    extrema name f byRow u = .ok ((if byRow then u else columnsOf u c).map fun line =>
      line.foldl f Scalar.notANumber) := by
  rw [extrema, columns?_of_hasColumns h]
  rfl

theorem combined_eq (hf : Picks wins f) {line : List Float} (hline : line ≠ []) :
    RealMath.combined name f line = .ok (line.foldl f Scalar.notANumber) := by
  cases line with
  | nil => exact absurd rfl hline
  | cons x xs =>
    rw [hf.foldl_notANumber]
    rfl

theorem lineByLine (hf : Picks wins f) (matrix vector : String) (u : List (List Float)) :
    LineByLine (fun byRow => .memoryless matrix (extrema matrix f byRow))
      (.memoryless vector (RealMath.combined vector f)) u where
  fails_iff byRow now := by
    simp only [Block.memoryless]
    by_cases h : Malformed u
    · rw [extrema_of_malformed h]
      exact iff_of_true ⟨_, rfl⟩ h
    · obtain ⟨c, hc⟩ := exists_hasColumns h
      rw [extrema_of_hasColumns hc]
      refine iff_of_false ?_ h
      rintro ⟨fault, hfault⟩
      cases hfault
  rows h := by
    obtain ⟨c, hc⟩ := exists_hasColumns h
    refine ⟨u.map fun row => row.foldl f Scalar.notANumber, fun now => ?_, ?_⟩
    · simp only [Block.memoryless]
      rw [extrema_of_hasColumns hc]
      rfl
    · rw [List.forall₂_map_right_iff, List.forall₂_same]
      intro row hrow now
      have nonempty : row ≠ [] := fun hempty => h (.inr (.inl (hempty ▸ hrow)))
      simp only [Block.memoryless]
      rw [combined_eq hf nonempty]
      rfl
  columns h := by
    obtain ⟨c, hc⟩ := exists_hasColumns h
    refine ⟨columnsOf u c, fun w => isTranspose_iff hc, fun now => ?_⟩
    simp only [Block.memoryless]
    rw [extrema_of_hasColumns hc, extrema_of_hasColumns (hasColumns_columnsOf hc)]
    rfl

/-- No row and no column holds zeros of both signs. -/
def Unmixed (u : List (List Float)) : Prop :=
  (∀ row ∈ u, ¬ BothZeros row) ∧ ∀ j, ¬ BothZeros (column u j)

theorem foldl_notANumber_congr (hwins : Ranks wins) (hf : Picks wins f) (hg : Picks wins g)
    {line : List Float} (hzeros : ¬ BothZeros line) :
    line.foldl f Scalar.notANumber = line.foldl g Scalar.notANumber := by
  cases line with
  | nil => rfl
  | cons x xs =>
    rw [hf.foldl_notANumber, hg.foldl_notANumber, hf.foldl_congr hwins hg x hzeros]

/-- Which of two equal values is picked is of no account for a matrix whose zeros have one sign in
each line. -/
theorem extrema_congr (hwins : Ranks wins) (hf : Picks wins f) (hg : Picks wins g)
    (hzeros : Unmixed u) (byRow : Bool) : extrema name f byRow u = extrema name g byRow u := by
  by_cases h : Malformed u
  · rw [extrema_of_malformed h, extrema_of_malformed h]
  · obtain ⟨c, hc⟩ := exists_hasColumns h
    rw [extrema_of_hasColumns hc, extrema_of_hasColumns hc]
    congr 1
    refine List.map_congr_left fun line hline => foldl_notANumber_congr hwins hf hg ?_
    cases byRow with
    | true => exact hzeros.1 line hline
    | false =>
      obtain ⟨j, -, rfl⟩ := List.mem_map.1 hline
      exact hzeros.2 j

theorem combined_congr (hwins : Ranks wins) (hf : Picks wins f) (hg : Picks wins g)
    {line : List Float} (hzeros : ¬ BothZeros line) :
    RealMath.combined name f line = RealMath.combined name g line := by
  by_cases hline : line = []
  · rw [hline]
    rfl
  · rw [combined_eq hf hline, combined_eq hg hline, foldl_notANumber_congr hwins hf hg hzeros]

end Extrema

/-! ## Products -/

section Product

variable {α : Type} [Scalar α] {k : List (List α)} {c : ℕ}

theorem gain_of_hasColumns (h : HasColumns k c) :
    gain k = .ok (.memoryless "MatrixGain" (product c k)) := by
  rw [gain, columns?_of_hasColumns h]

/-- What a matrix of gains is accepted for, and what is made of a vector. -/
theorem gain_eq_ok_iff {b : Block α (List α) Unit (List α)} :
    gain k = .ok b ↔ ∃ c, HasColumns k c ∧ b = .memoryless "MatrixGain" (product c k) := by
  constructor
  · intro h
    rcases columns?_cases k with ⟨hnone, -⟩ | ⟨c, -, hc⟩
    · rw [gain, hnone] at h
      cases h
    · rw [gain_of_hasColumns hc] at h
      exact ⟨c, hc, (Except.ok.inj h).symm⟩
  · rintro ⟨c, hc, rfl⟩
    exact gain_of_hasColumns hc

/-- Each row is the list of gains of a weighted sum. -/
theorem weightedSum_of_mem (h : HasColumns k c) {v : List α} (hv : v.length = c) {row : List α}
    (hrow : row ∈ k) :
    RealMath.weightedSum row v = .ok (Scalar.sum (Scalar.products row v)) := by
  have inputs : v.isEmpty = false := by
    rw [List.isEmpty_eq_false_iff, ← List.length_pos_iff, hv]
    exact h.pos
  have gains : v.length = row.length := hv.trans (h.even row hrow).symm
  rw [RealMath.weightedSum, inputs, if_neg Bool.false_ne_true, if_pos gains]

end Product

/-- **Line by line.**  The greatest and the least entries of a matrix fail just if it is malformed;
by rows they are what the blocks for vectors give of each row, also where values are no numbers, and
by columns what they are by rows for the transpose.  Where no line holds zeros of both signs, this
does not depend on which of two equal values is taken.  The product with a matrix fails just for a
vector of another length than its rows, and otherwise gives the weighted sum for each row. -/
theorem matrices_line_by_line :
    (∀ u : List (List Float),
      LineByLine max RealMath.multiMax u ∧ LineByLine min RealMath.multiMin u ∧
      (Unmixed u →
        (∀ f, Picks (fun x y => y < x) f →
          (∀ name byRow, extrema name f byRow u = extrema name Scalar.larger byRow u) ∧
          ∀ name, ∀ row ∈ u,
            RealMath.combined name f row = RealMath.combined name Scalar.larger row) ∧
        ∀ f, Picks (fun x y => x < y) f →
          (∀ name byRow, extrema name f byRow u = extrema name Scalar.smaller byRow u) ∧
          ∀ name, ∀ row ∈ u,
            RealMath.combined name f row = RealMath.combined name Scalar.smaller row)) ∧
    ∀ (k : List (List Float)) b, gain k = .ok b → ∃ c, HasColumns k c ∧ ∀ v now,
      ((∃ f, b.step now () v = .error f) ↔ v.length ≠ c) ∧
      (v.length = c → ∃ ys, b.step now () v = .ok (ys, ()) ∧
        List.Forall₂ (fun row y => (RealMath.multiSum row).step now () v = .ok (y, ())) k ys) := by
  refine ⟨fun u => ⟨lineByLine picks_larger "MatrixMax" "MultiMax" u,
    lineByLine picks_smaller "MatrixMin" "MultiMin" u, fun hzeros => ⟨fun f hf => ⟨?_, ?_⟩,
      fun f hf => ⟨?_, ?_⟩⟩⟩, fun k b hk => ?_⟩
  · exact fun name byRow => extrema_congr ranks_lt.flip hf picks_larger hzeros byRow
  · exact fun name row hrow => combined_congr ranks_lt.flip hf picks_larger (hzeros.1 row hrow)
  · exact fun name byRow => extrema_congr ranks_lt hf picks_smaller hzeros byRow
  · exact fun name row hrow => combined_congr ranks_lt hf picks_smaller (hzeros.1 row hrow)
  obtain ⟨c, hc, rfl⟩ := gain_eq_ok_iff.1 hk
  refine ⟨c, hc, fun v now => ⟨?_, fun hv => ?_⟩⟩
  · by_cases hv : v.length = c
    · simp [Block.memoryless, product, hv, Except.map]
    · simp [Block.memoryless, product, hv, Except.map]
  · refine ⟨k.map fun row => Scalar.sum (Scalar.products row v), ?_, ?_⟩
    · simp [Block.memoryless, product, hv, Except.map]
    · rw [List.forall₂_map_right_iff, List.forall₂_same]
      intro row hrow
      simp only [RealMath.multiSum, Block.memoryless]
      rw [weightedSum_of_mem hc hv hrow]
      rfl

/-- A row without numbers, a row that ends in minus zero, and a product. -/
theorem matrices_line_by_line_of_unordered :
    (Unmixed ([[0 / 0, 0 / 0], [-1, -0]] : List (List Float)) ∧
      extrema "MatrixMax" (fun x y => Scalar.larger y x) true [[0 / 0, 0 / 0], [-1, -0]] =
        .ok ([0 / 0, -0] : List Float)) ∧
    ∃ b, gain ([[1, 2], [-3, 0.5]] : List (List Float)) = .ok b ∧
      ∃ ys, b.step none () [4, 0.25] = .ok (ys, ()) ∧ ys = [4.5, -11.875] := by
  obtain ⟨picked, products⟩ := matrices_line_by_line
  have unmixed : Unmixed ([[0 / 0, 0 / 0], [-1, -0]] : List (List Float)) := by
    have rows : ∀ row ∈ ([[0 / 0, 0 / 0], [-1, -0]] : List (List Float)), ¬ BothZeros row := by
      simp only [List.forall_mem_cons]
      decide +kernel
    refine ⟨rows, ?_⟩
    rintro (_ | _ | j)
    · decide +kernel
    · decide +kernel
    · rintro ⟨h, -⟩
      cases h
  refine ⟨⟨unmixed, ?_⟩, ?_⟩
  · have same := ((picked _).2.2 unmixed).1 _ picks_larger.swap
    rw [same.1]
    decide +kernel
  · obtain ⟨b, hb⟩ : ∃ b, gain ([[1, 2], [-3, 0.5]] : List (List Float)) = .ok b := ⟨_, rfl⟩
    obtain ⟨c, hc, gives⟩ := products _ b hb
    obtain rfl : 2 = c := hc.even _ List.mem_cons_self
    obtain ⟨ys, hys, sums⟩ := (gives [4, 0.25] none).2 rfl
    refine ⟨b, hb, ys, hys, ?_⟩
    obtain - | ⟨first, sums⟩ := sums
    obtain - | ⟨second, sums⟩ := sums
    obtain - | - := sums
    have first' : (RealMath.multiSum [1, 2]).step none () [4, 0.25] = .ok ((4.5 : Float), ()) := by
      decide +kernel
    have second' :
        (RealMath.multiSum [-3, 0.5]).step none () [4, 0.25] = .ok ((-11.875 : Float), ()) := by
      decide +kernel
    cases first.symm.trans first'
    cases second.symm.trans second'
    rfl

end ControlBlocks.Matrix
