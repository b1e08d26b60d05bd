import ControlBlocks.Json.Reader
import ControlBlocks.Json.Writer
import Mathlib.Data.List.DropRight

/-!
# Texts and numbers are read back

* `Json.quoted_quote` — a quoted text is read back;
* `Json.number_append` — a number is read the same before a text that does not go on with it;
* `Json.numeral_of_parts` — a number is read part by part;
* `Json.number_toString` — an integer of 64 bits is read back.
-/

set_option autoImplicit false

namespace ControlBlocks.Json

/-! ## Blanks -/

/-- The text does not start with a blank. -/
theorem skipBlanks_cons {c : Char} (hc : isBlank c = false) (cs : List Char) :
    skipBlanks (c :: cs) = c :: cs := by
  simp [skipBlanks, hc]

theorem skipBlanks_append {blanks : List Char} (hb : ∀ c ∈ blanks, isBlank c = true)
    (cs : List Char) : skipBlanks (blanks ++ cs) = skipBlanks cs := by
  unfold skipBlanks
  induction blanks with
  | nil => rfl
  | cons b rest ih =>
    have hb' := hb b (by simp)
    simp only [List.cons_append, List.dropWhile_cons, hb', if_true]
    exact ih fun c hc => hb c (by simp [hc])

theorem skipBlanks_skipBlanks (cs : List Char) : skipBlanks (skipBlanks cs) = skipBlanks cs :=
  List.dropWhile_idempotent isBlank cs

/-! ## Quoted texts -/

theorem hexDigit?_digitChar : ∀ n, n < 16 → hexDigit? (Nat.digitChar n) = some n := by decide

/-- A control character is read back from its code. -/
theorem escaped_hexPair {c : Char} (hc : c.toNat < 32) (rest : List Char) :
    escaped ('u' :: '0' :: '0' :: (hexPair c.toNat ++ rest)) = some (c, rest) := by
  have high := hexDigit?_digitChar (c.toNat / 16) (by omega)
  have low := hexDigit?_digitChar (c.toNat % 16) (by omega)
  have zero : hexDigit? '0' = some 0 := by decide
  have whole : 4096 * 0 + 256 * 0 + 16 * (c.toNat / 16) + c.toNat % 16 = c.toNat := by omega
  have notLow : ¬(0xDC00 ≤ c.toNat ∧ c.toNat ≤ 0xDFFF) := by omega
  have notHigh : ¬(0xD800 ≤ c.toNat ∧ c.toNat ≤ 0xDBFF) := by omega
  simp only [escaped, unicodeEscape, hexPair, List.cons_append, List.nil_append, hexUnit, zero,
    high, low, Option.bind_eq_bind, Option.bind_some, Option.pure_def, whole, if_neg notLow,
    if_neg notHigh, Char.ofNat_toNat]

/-- One character of a quoted text takes one unit of fuel. -/
theorem quotedRest_escape (fuel : Nat) (done : List Char) (c : Char) (rest : List Char) :
    quotedRest (fuel + 1) done (escape c ++ rest) = quotedRest fuel (c :: done) rest := by
  unfold escape
  split
  · subst_vars; rfl
  split
  · subst_vars; rfl
  split
  · subst_vars; rfl
  split
  · subst_vars; rfl
  split
  · subst_vars; rfl
  split
  · subst_vars; rfl
  split
  · subst_vars; rfl
  split
  · rename_i hc
    simp only [List.cons_append, List.nil_append, quotedRest, escaped_hexPair hc]
    rfl
  · rename_i hquote hback _ _ _ _ _ hc
    simp only [List.cons_append, List.nil_append, quotedRest, if_neg hquote, if_neg hback,
      if_neg hc]

theorem quotedRest_escapes (cs done rest : List Char) (fuel : Nat) (hf : cs.length < fuel) :
    quotedRest fuel done (cs.flatMap escape ++ '"' :: rest) =
      some (String.ofList (done.reverse ++ cs), rest) := by
  induction cs generalizing fuel done with
  | nil =>
    obtain ⟨fuel, rfl⟩ : ∃ k, fuel = k + 1 := ⟨fuel - 1, by omega⟩
    simp [quotedRest]
  | cons c cs ih =>
    obtain ⟨fuel, rfl⟩ : ∃ k, fuel = k + 1 := ⟨fuel - 1, by omega⟩
    simp only [List.flatMap_cons, List.append_assoc, quotedRest_escape]
    rw [ih (c :: done) fuel (by simpa using hf)]
    simp

theorem escape_ne_nil (c : Char) : escape c ≠ [] := by
  unfold escape
  repeat' split
  all_goals simp

theorem length_le_length_escapes (cs : List Char) : cs.length ≤ (cs.flatMap escape).length := by
  induction cs with
  | nil => simp
  | cons c cs ih =>
    have := List.length_pos_iff.2 (escape_ne_nil c)
    simp only [List.length_cons, List.flatMap_cons, List.length_append]
    omega

theorem toList_quote (s : String) :
    (quote s).toList = '"' :: (s.toList.flatMap escape ++ ['"']) := by
  simp [quote]

/-- **Every text is read back from its quotation.** -/
theorem quoted_quote (s : String) (rest : List Char) :
    quoted ((quote s).toList ++ rest) = some (s, rest) := by
  have fuel := length_le_length_escapes s.toList
  simp only [toList_quote, List.cons_append, List.append_assoc, List.nil_append, quoted]
  rw [quotedRest_escapes s.toList [] rest _ (by simp only [List.length_append]; omega)]
  simp

/-! ## Numbers -/

/-- The character can stand inside a number after its first digit. -/
def goesOn (c : Char) : Bool := c.isDigit || c = '.' || c = 'e' || c = 'E'

/-- The text does not go on with a number that stands before it. -/
def EndsNumber (r : List Char) : Prop := ∀ c rest, r = c :: rest → goesOn c = false

theorem endsNumber_nil : EndsNumber [] := by intro c rest h; cases h

theorem endsNumber_cons {c : Char} {r : List Char} (h : goesOn c = false) :
    EndsNumber (c :: r) := by
  intro c' rest h'; cases h'; exact h

theorem EndsNumber.head {c : Char} {r : List Char} (h : EndsNumber (c :: r)) :
    c.isDigit = false ∧ c ≠ '.' ∧ c ≠ 'e' ∧ c ≠ 'E' := by
  have := h c r rfl
  simp only [goesOn, Bool.or_eq_false_iff, decide_eq_false_iff_not] at this
  obtain ⟨⟨⟨hd, hp⟩, he⟩, hE⟩ := this
  exact ⟨hd, hp, he, hE⟩

theorem digits_append {cs ds tail r : List Char} (h : digits cs = some (ds, tail))
    (hr : EndsNumber r) : digits (cs ++ r) = some (ds, tail ++ r) := by
  have span : ∀ cs : List Char, (cs ++ r).takeWhile Char.isDigit = cs.takeWhile Char.isDigit ∧
      (cs ++ r).dropWhile Char.isDigit = cs.dropWhile Char.isDigit ++ r := by
    intro cs
    induction cs with
    | nil =>
      cases r with
      | nil => simp
      | cons c r => simp [hr.head.1]
    | cons c cs ih =>
      by_cases hc : c.isDigit = true
      · simp [hc, ih.1, ih.2]
      · simp [hc]
  unfold digits at h ⊢
  rw [(span cs).1, (span cs).2]
  split at h
  · cases h
  · cases h
    rfl

theorem wholeDigits_append {cs ds tail r : List Char} (h : wholeDigits cs = some (ds, tail))
    (hr : EndsNumber r) : wholeDigits (cs ++ r) = some (ds, tail ++ r) := by
  unfold wholeDigits at h ⊢
  split at h
  · cases h
  · rename_i hzero
    rw [digits_append h hr]
    split
    · rename_i heq
      cases heq
      exact absurd h (hzero _ _ _)
    · rfl

theorem fractionDigits_append {cs tail r : List Char} {f : Option (List Char)}
    (h : fractionDigits cs = some (f, tail)) (hr : EndsNumber r) :
    fractionDigits (cs ++ r) = some (f, tail ++ r) := by
  unfold fractionDigits at h
  split at h
  · rename_i rest
    rw [Option.map_eq_some_iff] at h
    obtain ⟨⟨ds, tl⟩, hds, heq⟩ := h
    cases heq
    simp only [List.cons_append, fractionDigits, digits_append hds hr, Option.map_some]
  · rename_i hpoint
    cases h
    cases cs with
    | nil =>
      cases r with
      | nil => rfl
      | cons c r =>
        obtain ⟨-, hp, -⟩ := hr.head
        simp only [List.nil_append, fractionDigits]
        split
        · rename_i heq
          cases heq
          exact absurd rfl hp
        · rfl
    | cons c cs =>
      simp only [List.cons_append, fractionDigits]
      split
      · rename_i heq
        cases heq
        exact absurd rfl (hpoint cs)
      · rfl

theorem exponentPart_append {cs tail r : List Char} {e : Option Int}
    (h : exponentPart cs = some (e, tail)) (hr : EndsNumber r) :
    exponentPart (cs ++ r) = some (e, tail ++ r) := by
  cases cs with
  | nil =>
    cases h
    cases r with
    | nil => rfl
    | cons c r =>
      obtain ⟨-, -, he, hE⟩ := hr.head
      simp [exponentPart, he, hE]
  | cons c cs =>
    simp only [exponentPart] at h
    simp only [List.cons_append, exponentPart]
    split at h
    · rename_i hc
      rw [if_pos hc]
      rw [Option.map_eq_some_iff] at h
      obtain ⟨⟨ds, tl⟩, hds, heq⟩ := h
      cases heq
      -- the sign is looked for in front of the digits, which are there
      split at hds
      · rename_i rest
        simp only [List.cons_append, digits_append hds hr, Option.map_some]
      · rename_i rest
        simp only [List.cons_append, digits_append hds hr, Option.map_some]
      · rename_i hminus hplus
        cases cs with
        | nil => cases hds
        | cons d cs =>
          rw [List.cons_append]
          split
          · rename_i heq
            cases heq
            exact absurd rfl (hminus cs)
          · rename_i heq
            cases heq
            exact absurd rfl (hplus cs)
          · rw [← List.cons_append, digits_append hds hr]
            rfl
    · rename_i hc
      rw [if_neg hc]
      cases h
      rfl

theorem numeral_append {cs r : List Char} {n : Numeral} (h : numeral cs = some (n, []))
    (hr : EndsNumber r) : numeral (cs ++ r) = some (n, r) := by
  have unsigned {negative : Bool} {cs : List Char}
      (h : (wholeDigits cs).bind (fun w => (fractionDigits w.2).bind fun f =>
        (exponentPart f.2).bind fun e =>
          some ((⟨negative, w.1, f.1, e.1⟩ : Numeral), e.2)) = some (n, [])) :
      (wholeDigits (cs ++ r)).bind (fun w => (fractionDigits w.2).bind fun f =>
        (exponentPart f.2).bind fun e =>
          some ((⟨negative, w.1, f.1, e.1⟩ : Numeral), e.2)) = some (n, r) := by
    rw [Option.bind_eq_some_iff] at h
    obtain ⟨⟨w, cs₁⟩, hw, h⟩ := h
    rw [Option.bind_eq_some_iff] at h
    obtain ⟨⟨f, cs₂⟩, hf, h⟩ := h
    rw [Option.bind_eq_some_iff] at h
    obtain ⟨⟨e, cs₃⟩, he, h⟩ := h
    cases h
    simp only [wholeDigits_append hw hr, Option.bind_some, fractionDigits_append hf hr,
      exponentPart_append he hr, List.nil_append]
  unfold numeral at h ⊢
  split at h
  rename_i negative rest hsign
  split at hsign
  · cases hsign
    exact unsigned h
  · rename_i hminus
    cases hsign
    cases cs with
    | nil => cases h
    | cons c cs =>
      split
      rename_i heq
      split at heq
      · rename_i hc
        cases hc
        exact absurd rfl (hminus cs)
      · cases heq
        exact unsigned h

/-- **What follows a number does not change it**, unless it goes on with the number. -/
theorem number_append {cs r : List Char} {d : Datum Float} (h : number cs = some (d, []))
    (hr : EndsNumber r) : number (cs ++ r) = some (d, r) := by
  unfold number at h ⊢
  rw [Option.bind_eq_some_iff] at h
  obtain ⟨⟨n, tail⟩, hn, h⟩ := h
  rw [Option.map_eq_some_iff] at h
  obtain ⟨d', hd, heq⟩ := h
  cases heq
  simp only [numeral_append hn hr, Option.bind_some, hd, Option.map_some]

/-- A number starts with a sign or a digit. -/
theorem head_of_number {cs tail : List Char} {d : Datum Float} (h : number cs = some (d, tail)) :
    ∃ c rest, cs = c :: rest ∧ (c = '-' ∨ c.isDigit = true) := by
  have digit (cs : List Char) (hd : wholeDigits cs ≠ none) :
      ∃ c rest, cs = c :: rest ∧ c.isDigit = true := by
    cases cs with
    | nil => exact absurd rfl hd
    | cons c rest =>
      refine ⟨c, rest, rfl, ?_⟩
      cases hc : c.isDigit with
      | true => rfl
      | false => simp [wholeDigits, digits, hc] at hd
  cases cs with
  | nil => cases h
  | cons c cs =>
    refine ⟨c, cs, rfl, ?_⟩
    by_cases hc : c = '-'
    · exact Or.inl hc
    right
    unfold number numeral at h
    split at h
    rename_i heq
    split at heq
    · rename_i hm
      cases hm
      exact absurd rfl hc
    · cases heq
      obtain ⟨c', rest, heq, hd⟩ := digit (c :: cs) (by
        intro hnone
        rw [hnone] at h
        cases h)
      cases heq
      exact hd

/-! ## Parts of a number -/

section Parts

variable {c : Char} {ds rest tail whole : List Char} {fraction : Option (List Char)}
  {exponent : Option Int}

/-- The text does not go on with a digit. -/
def EndsDigits (rest : List Char) : Prop := ∀ c cs, rest = c :: cs → c.isDigit = false

theorem endsDigits_nil : EndsDigits [] := nofun

theorem endsDigits_cons (h : c.isDigit = false) : EndsDigits (c :: rest) := by
  intro c' cs h'
  cases h'
  exact h

/-- The characters are digits. -/
def AllDigits (ds : List Char) : Prop := ∀ c ∈ ds, c.isDigit = true

theorem allDigits_toDigits (n : Nat) : AllDigits (Nat.toDigits 10 n) := fun _ hc =>
  Nat.isDigit_of_mem_toDigits (by decide) (by decide) hc

theorem allDigits_replicate (k : Nat) : AllDigits (List.replicate k '0') := fun c hc => by
  rw [List.eq_of_mem_replicate hc]
  rfl

theorem AllDigits.append {ds' : List Char} (h : AllDigits ds) (h' : AllDigits ds') :
    AllDigits (ds ++ ds') := fun c hc => (List.mem_append.1 hc).elim (h c) (h' c)

theorem digits_of_all (hne : ds ≠ []) (hall : AllDigits ds) (hrest : EndsDigits rest) :
    digits (ds ++ rest) = some (ds, rest) := by
  have take : rest.takeWhile Char.isDigit = [] ∧ rest.dropWhile Char.isDigit = rest := by
    cases rest with
    | nil => exact ⟨rfl, rfl⟩
    | cons c cs =>
      have := hrest c cs rfl
      simp [this]
  unfold digits
  rw [List.takeWhile_append_of_pos hall, List.dropWhile_append_of_pos hall, take.1, take.2,
    List.append_nil]
  split
  · exact absurd rfl hne
  · rfl

theorem wholeDigits_zero (hrest : EndsDigits rest) :
    wholeDigits ('0' :: rest) = some (['0'], rest) := by
  have zero : AllDigits ['0'] := allDigits_replicate 1
  have read : digits ('0' :: rest) = some (['0'], rest) :=
    digits_of_all (List.cons_ne_nil _ _) zero hrest
  unfold wholeDigits
  rw [read]
  rfl

theorem wholeDigits_cons (hc : c ≠ '0') (hall : AllDigits (c :: ds)) (hrest : EndsDigits rest) :
    wholeDigits (c :: ds ++ rest) = some (c :: ds, rest) := by
  unfold wholeDigits
  rw [digits_of_all (List.cons_ne_nil _ _) hall hrest]
  split
  · rename_i heq
    cases heq
    exact absurd rfl hc
  · rfl

theorem fractionDigits_point (hne : ds ≠ []) (hall : AllDigits ds) (hrest : EndsDigits rest) :
    fractionDigits ('.' :: (ds ++ rest)) = some (some ds, rest) := by
  rw [fractionDigits, digits_of_all hne hall hrest]
  rfl

/-- A number is read part by part. -/
theorem numeral_of_parts (negative : Bool) {cs : List Char}
    (hwhole : wholeDigits cs = some (whole, rest))
    (hfraction : fractionDigits rest = some (fraction, tail))
    (hexponent : exponentPart tail = some (exponent, [])) :
    numeral ((if negative then ['-'] else []) ++ cs) =
      some (⟨negative, whole, fraction, exponent⟩, []) := by
  cases negative with
  | true => simp [numeral, hwhole, hfraction, hexponent]
  | false =>
    unfold numeral
    split
    rename_i heq
    split at heq
    · rename_i hminus
      -- no number starts with two signs
      rw [show (if false = true then ['-'] else []) ++ cs = cs from rfl] at hminus
      rw [hminus] at hwhole
      cases hwhole
    · cases heq
      simp [hwhole, hfraction, hexponent]

end Parts

/-! ## Integers -/

/-- Only the digits of zero start with a zero. -/
theorem toDigits_ne_zero_cons (n : Nat) (d : Char) (ds : List Char) :
    Nat.toDigits 10 n ≠ '0' :: d :: ds := by
  induction n using Nat.strongRecOn generalizing d ds with
  | ind n ih =>
    intro h
    rcases Nat.lt_or_ge n 10 with hn | hn
    · rw [Nat.toDigits_of_lt_base hn] at h
      exact absurd (List.cons.inj h).2.symm (List.cons_ne_nil d ds)
    · rw [Nat.toDigits_of_base_le (by decide) hn] at h
      have ih := ih (n / 10) (by omega)
      cases hq : Nat.toDigits 10 (n / 10) with
      | nil => exact Nat.toDigits_ne_nil hq
      | cons c cs =>
        rw [hq, List.cons_append] at h
        obtain ⟨rfl, -⟩ := List.cons.inj h
        cases cs with
        | cons c cs => exact ih c cs hq
        | nil =>
          -- a single zero is the digits of zero alone, and the quotient is positive
          have := congrArg (fun ds => Nat.ofDigitChars 10 ds 0) hq
          simp only [Nat.ofDigitChars_toDigits (b := 10) (by decide) (by decide)] at this
          have : Nat.ofDigitChars 10 ['0'] 0 = 0 := by decide
          omega

theorem digits_toDigits (n : Nat) : digits (Nat.toDigits 10 n) = some (Nat.toDigits 10 n, []) := by
  have read := digits_of_all Nat.toDigits_ne_nil (allDigits_toDigits n) endsDigits_nil
  rwa [List.append_nil] at read

theorem wholeDigits_toDigits (n : Nat) :
    wholeDigits (Nat.toDigits 10 n) = some (Nat.toDigits 10 n, []) := by
  unfold wholeDigits
  rw [digits_toDigits]
  split
  · rename_i heq
    exact absurd (Prod.mk.inj (Option.some.inj heq)).1 (toDigits_ne_zero_cons n _ _)
  · rfl

/-- The spelling of a natural number, with a minus or without. -/
theorem numeral_toDigits (negative : Bool) (n : Nat) :
    numeral ((if negative then ['-'] else []) ++ Nat.toDigits 10 n) =
      some (⟨negative, Nat.toDigits 10 n, none, none⟩, []) :=
  numeral_of_parts negative (wholeDigits_toDigits n) rfl rfl

theorem toList_toString (n : Int) :
    (toString n).toList = (if n < 0 then ['-'] else []) ++ Nat.toDigits 10 n.natAbs := by
  cases n with
  | ofNat n =>
    have : ¬ (Int.ofNat n < 0) := by simp
    rw [if_neg this]
    simp [toString, Int.repr, Nat.repr]
  | negSucc n =>
    have : Int.negSucc n < 0 := Int.negSucc_lt_zero n
    rw [if_pos this]
    simp [toString, Int.repr, Nat.repr]

/-- The integers that documents hold as such: those of 64 bits, signed or unsigned. -/
def Has64Bits (n : Int) : Prop := -0x8000000000000000 ≤ n ∧ n < 0x10000000000000000

instance (n : Int) : Decidable (Has64Bits n) := by unfold Has64Bits; infer_instance

/-- **An integer of 64 bits is read back.** -/
theorem number_toString {n : Int} (hn : Has64Bits n) :
    number (toString n).toList = some (.int n, []) := by
  obtain ⟨hlow, hhigh⟩ := hn
  have spelled := numeral_toDigits (decide (n < 0)) n.natAbs
  simp only [decide_eq_true_eq] at spelled
  have value : Nat.ofDigitChars 10 (Nat.toDigits 10 n.natAbs) 0 = n.natAbs :=
    Nat.ofDigitChars_toDigits (by decide) (by decide)
  unfold number
  rw [toList_toString, spelled, Option.bind_some]
  simp only [Numeral.value?, Numeral.int?, Option.isSome_none, Bool.or_self, Bool.false_eq_true,
    if_false, value, decide_eq_true_eq]
  by_cases hneg : n < 0
  · rw [if_pos hneg, if_pos (by omega)]
    have : -(n.natAbs : Int) = n := by omega
    rw [this]
    rfl
  · rw [if_neg hneg, if_pos (by omega)]
    have : (n.natAbs : Int) = n := by omega
    rw [this]
    rfl

end ControlBlocks.Json
