import ControlBlocks.Memoryless.Discrete
import Mathlib

/-!
# Weighted sums of integers

A weighted sum is added up in the order of its pairs.  Each term has to fit into 64 bits, and so has
each sum on the way.

* `terms` — the products; `overflows` — the places at which one of them does not fit, or the sum up
  to it;
* `foldlM_addTerm` — the sum is given if there is no such place, and the first of them is named
  otherwise;
* `rise`, `fall` — what the positive and the negative terms come to; `envelope` — no sum of some of
  the terms leaves what lies between the two;
* `forall_perm_iff` — every order adds up just if `rise` and `fall` fit;
* `exists_perm_overflows_eq_empty` — some order does if the terms and their sum fit;
* `multiSum_exact` — what the block gives, and in which orders.
-/

set_option autoImplicit false

namespace ControlBlocks.IntegerMath

variable {α : Type} [Scalar α] {start x : ℤ} {xs ys zs : List ℤ} {pairs : List (ℤ × ℤ)} {n : ℕ}

/-! ## Sums on the way -/

/-- The product of a gain and an input. -/
def term (p : ℤ × ℤ) : ℤ := p.1 * p.2

/-- The terms of a weighted sum. -/
def terms (pairs : List (ℤ × ℤ)) : List ℤ := pairs.map term

/-- The places at which a term does not fit, or the sum up to it, which begins with `start`. -/
def overflows (start : ℤ) (xs : List ℤ) : Set ℕ :=
  {n | n < xs.length ∧ ¬ (InInt64 (xs.getD n 0) ∧ InInt64 (start + (xs.take (n + 1)).sum))}

theorem zero_mem_overflows_cons :
    0 ∈ overflows start (x :: xs) ↔ ¬ (InInt64 x ∧ InInt64 (start + x)) := by
  simp [overflows]

theorem succ_mem_overflows_cons :
    n + 1 ∈ overflows start (x :: xs) ↔ n ∈ overflows (start + x) xs := by
  simp [overflows, add_assoc]

theorem overflows_nil : overflows start [] = ∅ := by
  ext n
  simp [overflows]

theorem overflows_cons_eq_empty_iff :
    overflows start (x :: xs) = ∅ ↔
      (InInt64 x ∧ InInt64 (start + x)) ∧ overflows (start + x) xs = ∅ := by
  simp only [Set.eq_empty_iff_forall_notMem]
  constructor
  · intro h
    exact ⟨not_not.1 fun hx => h 0 (zero_mem_overflows_cons.2 hx),
      fun n hn => h (n + 1) (succ_mem_overflows_cons.2 hn)⟩
  · rintro ⟨hx, h⟩ (_ | n) hn
    · exact zero_mem_overflows_cons.1 hn hx
    · exact h n (succ_mem_overflows_cons.1 hn)

/-- What is added up from the first terms fits if nothing overflows. -/
theorem inInt64_sum_of_append (h : overflows 0 (ys ++ zs) = ∅) : InInt64 ys.sum := by
  rcases Nat.eq_zero_or_pos ys.length with hempty | hpos
  · rw [List.length_eq_zero_iff.1 hempty]
    decide
  · have inside : ys.length - 1 < (ys ++ zs).length := by
      rw [List.length_append]
      omega
    have whole : (ys ++ zs).take (ys.length - 1 + 1) = ys := by
      rw [Nat.sub_add_cancel hpos, List.take_left]
    have fits := Set.eq_empty_iff_forall_notMem.1 h (ys.length - 1)
    rw [overflows, Set.mem_ofPred_eq, and_iff_right inside, not_not, whole, zero_add] at fits
    exact fits.2

theorem inInt64_sum (h : overflows 0 xs = ∅) : InInt64 xs.sum :=
  inInt64_sum_of_append (by rwa [List.append_nil] : overflows 0 (xs ++ []) = ∅)

theorem inInt64_of_mem (h : overflows 0 xs = ∅) (hx : x ∈ xs) : InInt64 x := by
  obtain ⟨n, hn, rfl⟩ := List.getElem_of_mem hx
  have fits := Set.eq_empty_iff_forall_notMem.1 h n
  rw [overflows, Set.mem_ofPred_eq, and_iff_right hn, not_not] at fits
  simpa [hn] using fits.1

/-! ## One term after another -/

/-- One term more. -/
def addTerm (sum : ℤ) (p : ℤ × ℤ) : Except (Fault α) ℤ := do
  let product ← checked "MultiSum" p.2 (term p)
  checked "MultiSum" p.2 (sum + product)

theorem weightedSum_eq (gains inputs : List ℤ) :
    (weightedSum gains inputs : Except (Fault α) ℤ) = (gains.zip inputs).foldlM addTerm 0 := rfl

theorem addTerm_of_fits {p : ℤ × ℤ} (h : InInt64 (term p) ∧ InInt64 (start + term p)) :
    (addTerm start p : Except (Fault α) ℤ) = .ok (start + term p) := by
  simp [addTerm, checked, h.1, h.2, bind, Except.bind]

theorem addTerm_of_not_fits {p : ℤ × ℤ} (h : ¬ (InInt64 (term p) ∧ InInt64 (start + term p))) :
    (addTerm start p : Except (Fault α) ℤ) =
      .error (.domain "MultiSum" "integer overflow" (p.2 : α)) := by
  by_cases hterm : InInt64 (term p)
  · have hsum : ¬ InInt64 (start + term p) := fun hsum => h ⟨hterm, hsum⟩
    simp [addTerm, checked, hterm, hsum, bind, Except.bind]
  · simp [addTerm, checked, hterm, bind, Except.bind]

/-- Where nothing overflows, the sum is given; otherwise the first place where something does is
named, by its input. -/
theorem foldlM_addTerm (start : ℤ) (pairs : List (ℤ × ℤ)) :
    (overflows start (terms pairs) = ∅ ∧
      (pairs.foldlM addTerm start : Except (Fault α) ℤ) = .ok (start + (terms pairs).sum)) ∨
    ∃ n, IsLeast (overflows start (terms pairs)) n ∧
      (pairs.foldlM addTerm start : Except (Fault α) ℤ) =
        .error (.domain "MultiSum" "integer overflow" ((pairs.getD n (0, 0)).2 : α)) := by
  induction pairs generalizing start with
  | nil => exact .inl ⟨overflows_nil, by simp [terms, pure, Except.pure]⟩
  | cons p pairs ih =>
    rw [List.foldlM_cons, show terms (p :: pairs) = term p :: terms pairs from rfl]
    by_cases hfits : InInt64 (term p) ∧ InInt64 (start + term p)
    · rw [addTerm_of_fits hfits, overflows_cons_eq_empty_iff, List.sum_cons, ← add_assoc]
      rcases ih (start + term p) with ⟨hnone, hsum⟩ | ⟨n, ⟨hn, hleast⟩, hfault⟩
      · exact .inl ⟨⟨hfits, hnone⟩, hsum⟩
      · refine .inr ⟨n + 1, ⟨succ_mem_overflows_cons.2 hn, ?_⟩, hfault⟩
        rintro (_ | m) hm
        · exact absurd hfits (zero_mem_overflows_cons.1 hm)
        · exact Nat.succ_le_succ (hleast (succ_mem_overflows_cons.1 hm))
    · rw [addTerm_of_not_fits hfits]
      exact .inr ⟨0, ⟨zero_mem_overflows_cons.2 hfits, fun m _ => Nat.zero_le m⟩, rfl⟩

/-! ## Every order -/

/-- What the positive terms come to. -/
def rise (xs : List ℤ) : ℤ := (xs.filter (0 < ·)).sum

/-- What the negative terms come to. -/
def fall (xs : List ℤ) : ℤ := (xs.filter (· < 0)).sum

theorem rise_cons (x : ℤ) (xs : List ℤ) :
    rise (x :: xs) = (if 0 < x then x else 0) + rise xs := by
  by_cases h : 0 < x <;> simp [rise, h]

theorem fall_cons (x : ℤ) (xs : List ℤ) :
    fall (x :: xs) = (if x < 0 then x else 0) + fall xs := by
  by_cases h : x < 0 <;> simp [fall, h]

theorem fall_add_rise (xs : List ℤ) : fall xs + rise xs = xs.sum := by
  induction xs with
  | nil => rfl
  | cons x xs ih =>
    rw [rise_cons, fall_cons, List.sum_cons]
    omega

/-- Some of the terms come to no more than all the positive ones, and to no less than all the
negative ones. -/
theorem envelope (h : ys.Sublist xs) : fall xs ≤ ys.sum ∧ ys.sum ≤ rise xs := by
  induction h with
  | slnil => exact ⟨le_rfl, le_rfl⟩
  | cons x _ ih =>
    rw [rise_cons, fall_cons]
    omega
  | cons_cons x _ ih =>
    rw [rise_cons, fall_cons, List.sum_cons]
    omega

theorem mem_envelope (hx : x ∈ xs) : fall xs ≤ x ∧ x ≤ rise xs := by
  simpa using envelope (List.singleton_sublist.2 hx)

/-- Where `rise` and `fall` fit, nothing overflows. -/
theorem overflows_eq_empty_of_envelope (hrise : InInt64 (rise xs)) (hfall : InInt64 (fall xs)) :
    overflows 0 xs = ∅ := by
  have fits {y : ℤ} (h : fall xs ≤ y ∧ y ≤ rise xs) : InInt64 y :=
    ⟨hfall.1.trans h.1, h.2.trans_lt hrise.2⟩
  rw [Set.eq_empty_iff_forall_notMem]
  rintro n ⟨hn, hover⟩
  refine hover ⟨?_, ?_⟩
  · have here : xs.getD n 0 = xs[n] := by simp [hn]
    rw [here]
    exact fits (mem_envelope (List.getElem_mem hn))
  · rw [zero_add]
    exact fits (envelope (List.take_sublist _ _))

/-- Terms that are selected may come first. -/
theorem inInt64_sum_filter (h : ∀ ps, ps.Perm pairs → overflows 0 (terms ps) = ∅)
    (select : ℤ → Bool) : InInt64 ((terms pairs).filter select).sum := by
  have none := h _ (List.filter_append_perm (select ∘ term) pairs)
  rw [terms, List.map_append, ← List.filter_map] at none
  exact inInt64_sum_of_append none

/-- Nothing overflows in any order just if the positive terms fit together, and the negative
ones. -/
theorem forall_perm_iff :
    (∀ ps, ps.Perm pairs → overflows 0 (terms ps) = ∅) ↔
      InInt64 (rise (terms pairs)) ∧ InInt64 (fall (terms pairs)) := by
  constructor
  · intro h
    exact ⟨inInt64_sum_filter h _, inInt64_sum_filter h _⟩
  · rintro ⟨hrise, hfall⟩ ps hps
    have same : (terms ps).Perm (terms pairs) := hps.map term
    apply overflows_eq_empty_of_envelope
    · rwa [rise, (same.filter _).sum_eq]
    · rwa [fall, (same.filter _).sum_eq]

/-! ## Some order -/

/-- One of the terms may come next: one of the other sign than the sum so far, if there is any, and
otherwise any, since the sums then go straight to the last one. -/
theorem exists_next (hne : xs ≠ []) (hstart : InInt64 start) (hterms : ∀ x ∈ xs, InInt64 x)
    (hsum : InInt64 (start + xs.sum)) : ∃ x ∈ xs, InInt64 (start + x) := by
  obtain ⟨y, hy⟩ := List.exists_mem_of_ne_nil xs hne
  have inside := mem_envelope hy
  have total := fall_add_rise xs
  unfold InInt64 at hstart hterms hsum ⊢
  by_cases hsign : 0 ≤ start
  · by_cases hneg : ∃ x ∈ xs, x < 0
    · obtain ⟨x, hx, hneg⟩ := hneg
      have := hterms x hx
      exact ⟨x, hx, by omega⟩
    · push Not at hneg
      have none : fall xs = 0 := by
        rw [fall, List.filter_eq_nil_iff.2 (by simpa using hneg), List.sum_nil]
      have := hneg y hy
      exact ⟨y, hy, by omega⟩
  · by_cases hpos : ∃ x ∈ xs, 0 < x
    · obtain ⟨x, hx, hpos⟩ := hpos
      have := hterms x hx
      exact ⟨x, hx, by omega⟩
    · push Not at hpos
      have none : rise xs = 0 := by
        rw [rise, List.filter_eq_nil_iff.2 (by simpa using hpos), List.sum_nil]
      have := hpos y hy
      exact ⟨y, hy, by omega⟩

/-- If the terms and their sum fit, there is an order in which nothing overflows. -/
theorem exists_perm_overflows_eq_empty (hstart : InInt64 start)
    (hterms : ∀ x ∈ terms pairs, InInt64 x) (hsum : InInt64 (start + (terms pairs).sum)) :
    ∃ ps, ps.Perm pairs ∧ overflows start (terms ps) = ∅ := by
  induction hlength : pairs.length generalizing start pairs with
  | zero =>
    obtain rfl := List.length_eq_zero_iff.1 hlength
    exact ⟨[], .refl [], overflows_nil⟩
  | succ n ih =>
    have hne : terms pairs ≠ [] := by
      apply List.ne_nil_of_length_eq_add_one
      rw [terms, List.length_map, hlength]
    obtain ⟨x, hx, hnext⟩ := exists_next hne hstart hterms hsum
    obtain ⟨p, hp, rfl⟩ := List.mem_map.1 hx
    have front : pairs.Perm (p :: pairs.erase p) := List.perm_cons_erase hp
    have others : (terms pairs).Perm (term p :: terms (pairs.erase p)) := front.map term
    have rest : InInt64 (start + term p + (terms (pairs.erase p)).sum) := by
      rwa [others.sum_eq, List.sum_cons, ← add_assoc] at hsum
    obtain ⟨ps, hps, hnone⟩ := ih hnext
      (fun y hy => hterms y (others.mem_iff.2 (List.mem_cons_of_mem _ hy))) rest
      (by rw [List.length_erase_of_mem hp, hlength, Nat.add_sub_cancel])
    exact ⟨p :: ps, (hps.cons p).trans front.symm,
      overflows_cons_eq_empty_iff.2 ⟨⟨hterms _ hx, hnext⟩, hnone⟩⟩

/-! ## The block -/

/-- The block gives the sum if nothing overflows, and otherwise names the input at the first place
where something does. -/
theorem multiSum_cases (gains inputs : List ℤ) (now : Option α) :
    (overflows 0 (terms (gains.zip inputs)) = ∅ ∧
      (multiSum gains).step now () inputs = .ok ((terms (gains.zip inputs)).sum, ())) ∨
    ∃ n, IsLeast (overflows 0 (terms (gains.zip inputs))) n ∧
      (multiSum gains).step now () inputs =
        .error (.domain "MultiSum" "integer overflow" (inputs.getD n 0 : α)) := by
  have here : (multiSum gains).step now () inputs =
      (weightedSum gains inputs : Except (Fault α) ℤ).map fun y => (y, ()) := rfl
  rw [here, weightedSum_eq]
  rcases foldlM_addTerm (α := α) 0 (gains.zip inputs) with ⟨hnone, hsum⟩ | ⟨n, hn, hfault⟩
  · exact .inl ⟨hnone, by rw [hsum, zero_add]; rfl⟩
  · have inside : n < (gains.zip inputs).length := by
      have := hn.1.1
      rwa [terms, List.length_map] at this
    have input : ((gains.zip inputs).getD n (0, 0)).2 = inputs.getD n 0 := by
      have second : n < inputs.length := (lt_min_iff.1 (List.length_zip ▸ inside)).2
      rw [List.getD_eq_getElem?_getD, List.getElem?_eq_getElem inside, Option.getD_some,
        List.getElem_zip, List.getD_eq_getElem?_getD, List.getElem?_eq_getElem second,
        Option.getD_some]
    exact .inr ⟨n, hn, by rw [hfault, input]; rfl⟩

theorem multiSum_eq_ok_iff {gains inputs : List ℤ} {now : Option α} {y : ℤ} :
    (multiSum gains).step now () inputs = .ok (y, ()) ↔
      overflows 0 (terms (gains.zip inputs)) = ∅ ∧ y = (terms (gains.zip inputs)).sum := by
  rcases multiSum_cases gains inputs now with ⟨hnone, hsum⟩ | ⟨n, hn, hfault⟩
  · simp [hsum, hnone, eq_comm]
  · have some : overflows 0 (terms (gains.zip inputs)) ≠ ∅ := Set.nonempty_iff_ne_empty.1 ⟨n, hn.1⟩
    simp [hfault, some]

theorem multiSum_eq_error_iff {gains inputs : List ℤ} {now : Option α} {f : Fault α} :
    (multiSum gains).step now () inputs = .error f ↔
      ∃ n, IsLeast (overflows 0 (terms (gains.zip inputs))) n ∧
        f = .domain "MultiSum" "integer overflow" (inputs.getD n 0 : α) := by
  rcases multiSum_cases gains inputs now with ⟨hnone, hsum⟩ | ⟨n, hn, hfault⟩
  · simp [hsum, hnone, IsLeast]
  · rw [hfault]
    constructor
    · intro h
      exact ⟨n, hn, (Except.error.inj h).symm⟩
    · rintro ⟨m, hm, rfl⟩
      rw [hm.unique hn]

/-- What the block gives on gains and inputs in pairs. -/
def onPairs (ps : List (ℤ × ℤ)) (now : Option α) : Except (Fault α) (ℤ × Unit) :=
  (multiSum (ps.map Prod.fst)).step now () (ps.map Prod.snd)

theorem onPairs_eq_ok_iff {ps : List (ℤ × ℤ)} {now : Option α} {y : ℤ} :
    onPairs ps now = .ok (y, ()) ↔ overflows 0 (terms ps) = ∅ ∧ y = (terms ps).sum := by
  have pairs : (ps.map Prod.fst).zip (ps.map Prod.snd) = ps := by simp [List.zip_map']
  rw [onPairs, multiSum_eq_ok_iff, pairs]

/-- **What a weighted sum gives.**  With each term and each sum on the way within 64 bits it gives
the sum, and otherwise a fault that names the input at the first place where one of them is not.
So in any order of the pairs it gives the sum or a fault, and the fault in all of them if the sum
does not fit.  All orders give the sum just if the positive terms fit together and the negative ones
too; some order does just if the terms and the sum fit. -/
theorem multiSum_exact (gains inputs : List ℤ) :
    let xs := terms (gains.zip inputs)
    (∀ (now : Option α) (y : ℤ), (multiSum gains).step now () inputs = .ok (y, ()) ↔
      overflows 0 xs = ∅ ∧ y = xs.sum) ∧
    (∀ (now : Option α) (f : Fault α), (multiSum gains).step now () inputs = .error f ↔
      ∃ n, IsLeast (overflows 0 xs) n ∧
        f = .domain "MultiSum" "integer overflow" (inputs.getD n 0 : α)) ∧
    (∀ ps, ps.Perm (gains.zip inputs) → ∀ now : Option α,
      InInt64 xs.sum ∧ onPairs ps now = .ok (xs.sum, ()) ∨
        ∃ u : ℤ, onPairs ps now = .error (.domain "MultiSum" "integer overflow" (u : α))) ∧
    ((∀ ps, ps.Perm (gains.zip inputs) → ∀ now : Option α, onPairs ps now = .ok (xs.sum, ())) ↔
      InInt64 (rise xs) ∧ InInt64 (fall xs)) ∧
    ((∃ ps, ps.Perm (gains.zip inputs) ∧ ∀ now : Option α, onPairs ps now = .ok (xs.sum, ())) ↔
      (∀ x ∈ xs, InInt64 x) ∧ InInt64 xs.sum) := by
  intro xs
  have sums {ps : List (ℤ × ℤ)} (h : ps.Perm (gains.zip inputs)) : (terms ps).sum = xs.sum :=
    (h.map term).sum_eq
  have given {ps : List (ℤ × ℤ)} (h : ps.Perm (gains.zip inputs)) :
      (∀ now : Option α, onPairs ps now = .ok (xs.sum, ())) ↔ overflows 0 (terms ps) = ∅ := by
    simp only [onPairs_eq_ok_iff, sums h, and_true, forall_const]
  refine ⟨fun _ _ => multiSum_eq_ok_iff, fun _ _ => multiSum_eq_error_iff, ?_, ?_, ?_⟩
  · intro ps hps now
    rcases multiSum_cases (ps.map Prod.fst) (ps.map Prod.snd) now with ⟨-, h⟩ | ⟨n, -, h⟩
    · obtain ⟨hnone, hsum⟩ := onPairs_eq_ok_iff.1 h
      rw [sums hps] at hsum
      exact .inl ⟨sums hps ▸ inInt64_sum hnone, hsum ▸ h⟩
    · exact .inr ⟨_, h⟩
  · rw [← forall_perm_iff]
    exact forall₂_congr fun ps hps => given hps
  · constructor
    · rintro ⟨ps, hps, h⟩
      have hnone := (given hps).1 h
      exact ⟨fun x hx => inInt64_of_mem hnone ((hps.map term).mem_iff.2 hx),
        sums hps ▸ inInt64_sum hnone⟩
    · rintro ⟨hterms, hsum⟩
      obtain ⟨ps, hps, hnone⟩ := exists_perm_overflows_eq_empty (by decide : InInt64 0) hterms
        (by rwa [zero_add])
      exact ⟨ps, hps, (given hps).2 hnone⟩

/-- Two terms cancel each other, and the sum fits.  In the order given it overflows on the way, at
the second place; in some other order it does not. -/
theorem multiSum_exact_cancelling :
    (multiSum [1, 1, 1]).step (none : Option Rat) () [0x7fffffffffffffff, 1, -1] =
        .error (.domain "MultiSum" "integer overflow" 1) ∧
      ∃ ps : List (ℤ × ℤ), ps.Perm [(1, 0x7fffffffffffffff), (1, 1), (1, -1)] ∧
        ∀ now : Option Rat, onPairs ps now = .ok (0x7fffffffffffffff, ()) := by
  obtain ⟨-, faults, -, -, orders⟩ :=
    multiSum_exact (α := Rat) [1, 1, 1] [0x7fffffffffffffff, 1, -1]
  refine ⟨(faults none _).2 ⟨1, ⟨⟨by decide, by decide⟩, ?_⟩, by simp⟩, orders.2 (by decide)⟩
  rintro (_ | m) hm
  · exact absurd (by decide) hm.2
  · exact Nat.succ_le_succ (Nat.zero_le m)

/-- The sum fits, and yet a fault is given; with the last two pairs exchanged the sum is given. -/
theorem exists_fault_of_fitting_sum :
    ∃ gains inputs : List ℤ, (∀ k ∈ gains, InInt64 k) ∧ (∀ u ∈ inputs, InInt64 u) ∧
      InInt64 (terms (gains.zip inputs)).sum ∧
      (multiSum gains).step (none : Option Float) () inputs =
        .error (.domain "MultiSum" "integer overflow" ((1 : ℤ) : Float)) ∧
      ∃ ps : List (ℤ × ℤ), ps.Perm (gains.zip inputs) ∧
        onPairs ps (none : Option Float) = .ok ((terms (gains.zip inputs)).sum, ()) := by
  refine ⟨[1, 1, 1], [0x7fffffffffffffff, 1, -1], by decide, by decide, by decide, rfl,
    [(1, 0x7fffffffffffffff), (1, -1), (1, 1)], by decide, rfl⟩

end ControlBlocks.IntegerMath
