import ControlBlocks.Memoryless.Matrix
import ControlBlocks.Proofs.Binary64.TotalOrder

/-!
# Stable sorting

A sorted vector is the only one of its kind.

* `TotalOrder.Lawful` — what is asked of an order of all values;
* `Binary64.Encoding.lawful` — encodings are in such an order, and so are floats;
* `filter_mergeSort` — values among which every order would do stay as they were;
* `Matrix.Sorts` — what a sorted vector and its positions have to satisfy;
* `Matrix.sorts_iff` — the same of the pairs of value and position;
* `Matrix.sorts_iff_eq_sorted` — the vector in order is the only sorted form;
* `Matrix.sorted_map` — floats are sorted as their encodings;
* `Matrix.sorts_stably` — the block gives the vector that satisfies it, and no other does.
-/

set_option autoImplicit false

namespace ControlBlocks

/-! ## The order of all values -/

open TotalOrder (totalLE)

/-- Any two values are in order, and two steps of the order make one. -/
structure TotalOrder.Lawful (β : Type) [TotalOrder β] : Prop where
  total : ∀ x y : β, totalLE x y = true ∨ totalLE y x = true
  trans : ∀ x y z : β, totalLE x y = true → totalLE y z = true → totalLE x z = true

open TotalOrder (Lawful)

namespace Binary64

theorem Encoding.lawful : Lawful Encoding where
  total p q := by
    rw [totalLE_iff, totalLE_iff]
    exact Int.le_total _ _
  trans p q r := by
    rw [totalLE_iff, totalLE_iff, totalLE_iff]
    exact Int.le_trans

theorem lawful_float : Lawful Float where
  total x y := Encoding.lawful.total (.ofFloat x) (.ofFloat y)
  trans x y z := Encoding.lawful.trans (.ofFloat x) (.ofFloat y) (.ofFloat z)

end Binary64

/-! ## Sorting a list -/

/-- Sorting moves none of the entries past each other among which every order would do. -/
theorem filter_mergeSort {β : Type} {le : β → β → Bool}
    (trans : ∀ a b c, le a b = true → le b c = true → le a c = true)
    (total : ∀ a b, (le a b || le b a) = true) {p : β → Bool} (l : List β)
    (hp : ∀ a b, p a = true → p b = true → le a b = true) :
    (l.mergeSort le).filter p = l.filter p := by
  have ascends : (l.filter p).Pairwise fun a b => le a b = true :=
    List.pairwise_of_forall_mem_list fun a ha b hb =>
      hp a b (List.mem_filter.1 ha).2 (List.mem_filter.1 hb).2
  -- in order as they are, these entries are still there in the same order
  have kept : (l.filter p).Sublist (l.mergeSort le) :=
    List.sublist_mergeSort trans total ascends List.filter_sublist
  have within : (l.filter p).Sublist ((l.mergeSort le).filter p) := by
    simpa using kept.filter p
  have count : (l.filter p).length = ((l.mergeSort le).filter p).length :=
    (((List.mergeSort_perm l le).filter p).length_eq).symm
  exact (within.eq_of_length count).symm

namespace Matrix

/-! ## Entries with their positions -/

section Numbered

variable {α : Type} {u : List α}

/-- The entries of a vector, each with its position; positions count from one. -/
def numbered (u : List α) : List (α × ℤ) := u.zipIdx.map fun e => (e.1, (e.2 : ℤ) + 1)

theorem map_snd_numbered (u : List α) :
    (numbered u).map Prod.snd = (List.range u.length).map fun i : ℕ => (i : ℤ) + 1 := by
  rw [numbered, List.map_map, List.range_eq_range', ← List.zipIdx_map_snd 0 u, List.map_map]
  rfl

theorem pairwise_zipIdx (u : List α) : u.zipIdx.Pairwise fun a b => a.2 < b.2 := by
  have indices : (u.zipIdx.map Prod.snd).Pairwise (· < ·) := by
    rw [List.zipIdx_map_snd]
    exact List.pairwise_lt_range'
  exact List.pairwise_map.1 indices

theorem mem_numbered {x : α} {p : ℤ} (h : (x, p) ∈ numbered u) : u[(p - 1).toNat]? = some x := by
  obtain ⟨⟨y, i⟩, hmem, heq⟩ := List.mem_map.1 h
  obtain ⟨rfl, rfl⟩ := Prod.mk.injEq .. ▸ heq
  rw [Int.add_sub_cancel, Int.toNat_natCast]
  exact List.mem_zipIdx_iff_getElem?.1 hmem

/-- The positions of a vector in some order, with the entries at them, are its entries in that
order. -/
theorem perm_numbered {pairs : List (α × ℤ)}
    (hpositions : (pairs.map Prod.snd).Perm ((numbered u).map Prod.snd))
    (hentries : ∀ a ∈ pairs, u[(a.2 - 1).toNat]? = some a.1) : pairs.Perm (numbered u) := by
  let entry (p : ℤ) : Option α × ℤ := (u[(p - 1).toNat]?, p)
  have found (as : List (α × ℤ)) (has : ∀ a ∈ as, u[(a.2 - 1).toNat]? = some a.1) :
      as.map (Prod.map some id) = (as.map Prod.snd).map entry := by
    rw [List.map_map]
    exact List.map_congr_left fun a ha => Prod.ext (has a ha).symm rfl
  have injective : Function.Injective (Prod.map (some : α → Option α) (id : ℤ → ℤ)) :=
    (Option.some_injective α).prodMap Function.injective_id
  rw [← List.map_perm_map_iff injective, found pairs hentries,
    found (numbered u) fun _ ha => mem_numbered ha]
  exact hpositions.map entry

end Numbered

/-! ## Sorted vectors -/

section Sorts

variable {β : Type} [TotalOrder β] {ascending : Bool} {u : List β} {s s' : Sorted β}

/-- A value may stand before another one: upwards the lower one, downwards the higher one. -/
def Precedes (ascending : Bool) (x y : β) : Prop :=
  if ascending then totalLE x y = true else totalLE y x = true

/-- Two values are equal in the order. -/
def Tied (x y : β) : Prop := totalLE x y = true ∧ totalLE y x = true

/-- What makes a vector with positions the sorted form of another one: the positions are those
of that vector, counted from one and each once; each value is the entry at its position; the
values are in order; and values that are equal in the order keep the order of their positions. -/
structure Sorts (ascending : Bool) (u : List β) (s : Sorted β) : Prop where
  positions : s.positions.Perm ((List.range u.length).map fun i : ℕ => (i : ℤ) + 1)
  entries : List.Forall₂ (fun x p => u[(p - 1).toNat]? = some x) s.values s.positions
  ordered : s.values.Pairwise (Precedes ascending)
  stable : (s.values.zip s.positions).Pairwise fun a b => Tied a.1 b.1 → a.2 < b.2

/-- A pair may stand before another one; of equal values, the first position comes first. -/
def Before (ascending : Bool) (a b : β × ℤ) : Prop :=
  Precedes ascending a.1 b.1 ∧ (Tied a.1 b.1 → a.2 < b.2)

theorem tied_of_precedes {x y : β} (hxy : Precedes ascending x y) (hyx : Precedes ascending y x) :
    Tied x y := by
  unfold Precedes at hxy hyx
  cases ascending with
  | false => exact ⟨hyx, hxy⟩
  | true => exact ⟨hxy, hyx⟩

/-- Of two pairs only one may stand before the other. -/
theorem Before.asymm {a b : β × ℤ} (hab : Before ascending a b) : ¬ Before ascending b a := by
  intro hba
  have tied : Tied a.1 b.1 := tied_of_precedes hab.1 hba.1
  have := hab.2 tied
  have := hba.2 ⟨tied.2, tied.1⟩
  omega

/-- What is asked of values and positions, said of the pairs of both. -/
theorem sorts_iff :
    Sorts ascending u s ↔ s.values.length = s.positions.length ∧
      (s.values.zip s.positions).Perm (numbered u) ∧
      (s.values.zip s.positions).Pairwise (Before ascending) := by
  have values (h : s.values.length = s.positions.length) :
      (s.values.zip s.positions).map Prod.fst = s.values := List.map_fst_zip (Nat.le_of_eq h)
  have positions (h : s.values.length = s.positions.length) :
      (s.values.zip s.positions).map Prod.snd = s.positions :=
    List.map_snd_zip (Nat.le_of_eq h.symm)
  constructor
  · rintro ⟨hpositions, hentries, hordered, hstable⟩
    obtain ⟨hlength, hentries⟩ := List.forall₂_iff_zip.1 hentries
    refine ⟨hlength, perm_numbered ?_ fun a ha => hentries ha, ?_⟩
    · rw [positions hlength, map_snd_numbered]
      exact hpositions
    · rw [← values hlength, List.pairwise_map] at hordered
      exact hordered.and hstable
  · rintro ⟨hlength, hperm, hbefore⟩
    obtain ⟨hordered, hstable⟩ := List.pairwise_and_iff.1 hbefore
    refine ⟨?_, List.forall₂_iff_zip.2 ⟨hlength, fun h => mem_numbered (hperm.mem_iff.1 h)⟩, ?_,
      hstable⟩
    · rw [← map_snd_numbered, ← positions hlength]
      exact hperm.map Prod.snd
    · rw [← values hlength, List.pairwise_map]
      exact hordered

/-- There is at most one sorted form. -/
theorem Sorts.unique (h : Sorts ascending u s) (h' : Sorts ascending u s') : s = s' := by
  obtain ⟨hlength, hperm, hbefore⟩ := sorts_iff.1 h
  obtain ⟨hlength', hperm', hbefore'⟩ := sorts_iff.1 h'
  have pairs : s.values.zip s.positions = s'.values.zip s'.positions :=
    (hperm.trans hperm'.symm).eq_of_pairwise (fun a b _ _ hab hba => absurd hba hab.asymm)
      hbefore hbefore'
  obtain ⟨values, positions⟩ := s
  obtain ⟨values', positions'⟩ := s'
  have unzipped := congrArg List.unzip pairs
  rw [List.unzip_zip hlength, List.unzip_zip hlength'] at unzipped
  cases unzipped
  rfl

end Sorts

/-! ## The block -/

section Block

variable {β : Type} [TotalOrder β] {ascending : Bool} {u : List β}

/-- The order by which the entries are sorted. -/
def entryLE (ascending : Bool) (a b : β × ℕ) : Bool :=
  if ascending then totalLE a.1 b.1 else totalLE b.1 a.1

theorem entryLE_iff {a b : β × ℕ} : entryLE ascending a b = true ↔ Precedes ascending a.1 b.1 := by
  unfold entryLE Precedes
  split <;> rfl

variable (horder : Lawful β)
include horder

theorem entryLE_total (a b : β × ℕ) : (entryLE ascending a b || entryLE ascending b a) = true := by
  rw [Bool.or_eq_true]
  cases ascending with
  | false => exact horder.total b.1 a.1
  | true => exact horder.total a.1 b.1

theorem entryLE_trans (a b c : β × ℕ) (hab : entryLE ascending a b = true)
    (hbc : entryLE ascending b c = true) : entryLE ascending a c = true := by
  cases ascending with
  | false => exact horder.trans _ _ _ hbc hab
  | true => exact horder.trans _ _ _ hab hbc

/-- Upwards and downwards, entries of equal values stay in the order of their positions. -/
theorem stable_sortEntries (ascending : Bool) (u : List β) :
    (sortEntries ascending u).Pairwise fun a b => Tied a.1 b.1 → a.2 < b.2 := by
  refine List.pairwise_iff_forall_sublist.2 fun {a b} hab htied => ?_
  let tied (e : β × ℕ) : Bool := totalLE a.1 e.1 && totalLE e.1 a.1
  have reflexive : totalLE a.1 a.1 = true := (horder.total a.1 a.1).elim id id
  have among (c d : β × ℕ) (hc : tied c = true) (hd : tied d = true) :
      entryLE ascending c d = true := by
    obtain ⟨hac, hca⟩ := Bool.and_eq_true_iff.1 hc
    obtain ⟨had, hda⟩ := Bool.and_eq_true_iff.1 hd
    cases ascending with
    | false => exact horder.trans _ _ _ hda hac
    | true => exact horder.trans _ _ _ hca had
  have kept : (sortEntries ascending u).filter tied = u.zipIdx.filter tied :=
    filter_mergeSort (entryLE_trans horder) (entryLE_total horder) u.zipIdx among
  have both : [a, b].filter tied = [a, b] := by
    simp [tied, reflexive, htied.1, htied.2]
  have pair := hab.filter tied
  rw [both, kept] at pair
  exact List.pairwise_iff_forall_sublist.1 (pairwise_zipIdx u) (pair.trans List.filter_sublist)

/-- The vector in order is a sorted form. -/
theorem sorts_sorted (ascending : Bool) (u : List β) : Sorts ascending u (sorted ascending u) := by
  have pairs : (sorted ascending u).values.zip (sorted ascending u).positions =
      (sortEntries ascending u).map fun e => (e.1, (e.2 : ℤ) + 1) := List.zip_map' ..
  have ordered : (sortEntries ascending u).Pairwise fun a b => Precedes ascending a.1 b.1 :=
    (List.pairwise_mergeSort (entryLE_trans horder) (entryLE_total horder) u.zipIdx).imp
      entryLE_iff.1
  rw [sorts_iff, pairs]
  refine ⟨?_, (List.mergeSort_perm u.zipIdx (entryLE ascending)).map _, ?_⟩
  · simp [sorted]
  · rw [List.pairwise_map]
    exact ordered.and ((stable_sortEntries horder ascending u).imp fun h htied => by
      have := h htied
      omega)

/-- It is the only one. -/
theorem sorts_iff_eq_sorted {s : Sorted β} : Sorts ascending u s ↔ s = sorted ascending u := by
  have sorts := sorts_sorted horder ascending u
  constructor
  · intro h
    exact h.unique sorts
  · rintro rfl
    exact sorts

end Block

/-! ## Floats and their encodings -/

/-- The same positions, with other values. -/
def Sorted.map {β γ : Type} (f : β → γ) (s : Sorted β) : Sorted γ := ⟨s.values.map f, s.positions⟩

/-- Values that are compared as what they are mapped to are sorted as that. -/
theorem sorted_map {β γ : Type} [TotalOrder β] [TotalOrder γ] {f : β → γ}
    (hf : ∀ x y, totalLE x y = totalLE (f x) (f y)) (ascending : Bool) (u : List β) :
    sorted ascending (u.map f) = (sorted ascending u).map f := by
  have entries : sortEntries ascending (u.map f) =
      (sortEntries ascending u).map (Prod.map f id) := by
    unfold sortEntries
    rw [List.zipIdx_map, List.map_mergeSort]
    rintro ⟨x, i⟩ - ⟨y, j⟩ -
    simp only [Prod.map_apply, hf]
  simp only [sorted, Sorted.map, entries, List.map_map]
  rfl

/-- **The only stable order.**  Upwards and downwards, the block gives a vector and positions such
that the positions are those of the input, each once, the values are the entries at them, in the
total order of all sixty-four bits, and values that are equal in that order keep the order of their
positions.  There is no other vector with positions of which this is true.  On floats, which are
the encodings with a single value that is no number, the block gives the same. -/
theorem sorts_stably (ascending : Bool) :
    (∀ u : List Binary64.Encoding, ∃ s : Sorted Binary64.Encoding,
      (∀ now : Option Float, (sort Binary64.Encoding ascending).step now () u = .ok (s, ())) ∧
        ∀ s', Sorts ascending u s' ↔ s' = s) ∧
    ∀ u : List Float, ∃ s : Sorted Float,
      (∀ now : Option Float, (sort Float ascending).step now () u = .ok (s, ()) ∧
        (sort Binary64.Encoding ascending).step now () (u.map Binary64.Encoding.ofFloat) =
          .ok (s.map Binary64.Encoding.ofFloat, ())) ∧
        ∀ s', Sorts ascending u s' ↔ s' = s := by
  constructor
  case left =>
    intro u
    exact ⟨sorted ascending u, fun _ => rfl, fun _ => sorts_iff_eq_sorted Binary64.Encoding.lawful⟩
  case right =>
    intro u
    have encoded := sorted_map (f := Binary64.Encoding.ofFloat) (fun _ _ => rfl) ascending u
    refine ⟨sorted ascending u, fun _ => ⟨rfl, ?_⟩,
      fun _ => sorts_iff_eq_sorted Binary64.lawful_float⟩
    rw [← encoded]
    rfl

/-- What is no number, with a sign, stands before minus one. -/
example : sorted true [(⟨0xBFF0000000000000⟩ : Binary64.Encoding), ⟨0xFFF8000000000000⟩] =
    ⟨[⟨0xFFF8000000000000⟩, ⟨0xBFF0000000000000⟩], [2, 1]⟩ := by
  cbv

end Matrix

end ControlBlocks
