import ControlBlocks.Proofs.Datum.Contents
import ControlBlocks.Proofs.Json.Reals

/-!
# Documents are read back

* `Json.Spells` — the texts that spell a value, with any blanks between the parts;
* `Json.value_of_spells` — the reader gives the value that a text spells;
* `Json.spells_compact`, `spells_prettyAt` — what is written spells what is stored;
* `Json.parse?_compact`, `parseShape?_pretty` — a document is read back.

All that is asked of a written tree is that its integers have 64 bits.
-/

set_option autoImplicit false

namespace ControlBlocks.Json

/-! ## Texts that spell a value -/

/-- The text consists of blanks. -/
def Blank (cs : List Char) : Prop := ∀ c ∈ cs, isBlank c = true

theorem blank_nil : Blank [] := by intro c hc; cases hc

mutual

/-- The text spells the value. -/
inductive Spells : Datum Float → List Char → Prop where
  | null : Spells .null ['n', 'u', 'l', 'l']
  | yes : Spells (.bool true) ['t', 'r', 'u', 'e']
  | no : Spells (.bool false) ['f', 'a', 'l', 's', 'e']
  | number {d : Datum Float} {cs : List Char} (h : number cs = some (d, [])) : Spells d cs
  | text (s : String) : Spells (.text s) (quote s).toList
  | noItems : Spells (.list []) ['[', ']']
  | items {items : List (Datum Float)} {cs : List Char} (h : SpellsItems items cs) :
      Spells (.list items) ('[' :: cs)
  | noFields : Spells (.record []) ['\x7b', '\x7d']
  | fields {fields : List (String × Datum Float)} {cs : List Char} (h : SpellsFields fields cs) :
      Spells (.record fields) ('\x7b' :: cs)

/-- The text spells the items of a list up to its closing bracket. -/
inductive SpellsItems : List (Datum Float) → List Char → Prop where
  | last {d : Datum Float} {before cs after : List Char} (hb : Blank before) (ha : Blank after)
      (h : Spells d cs) : SpellsItems [d] (before ++ (cs ++ (after ++ [']'])))
  | more {d : Datum Float} {items : List (Datum Float)} {before cs rest : List Char}
      (hb : Blank before) (h : Spells d cs) (hrest : SpellsItems items rest) :
      SpellsItems (d :: items) (before ++ (cs ++ ',' :: rest))

/-- The text spells the entries of a record up to its closing bracket. -/
inductive SpellsFields : List (String × Datum Float) → List Char → Prop where
  | last {key : String} {d : Datum Float} {before gap cs after : List Char} (hb : Blank before)
      (hg : Blank gap) (ha : Blank after) (h : Spells d cs) :
      SpellsFields [(key, d)]
        (before ++ ((quote key).toList ++ ':' :: (gap ++ (cs ++ (after ++ ['\x7d'])))))
  | more {key : String} {d : Datum Float} {fields : List (String × Datum Float)}
      {before gap cs rest : List Char} (hb : Blank before) (hg : Blank gap) (h : Spells d cs)
      (hrest : SpellsFields fields rest) :
      SpellsFields ((key, d) :: fields)
        (before ++ ((quote key).toList ++ ':' :: (gap ++ (cs ++ ',' :: rest))))

end

theorem isBlank_of_isDigit {c : Char} (h : c.isDigit = true) : isBlank c = false := by
  have hn : ∀ d : Char, d.isDigit = false → c ≠ d := by
    rintro d hd rfl
    rw [h] at hd
    cases hd
  simp [isBlank, hn ' ' (by decide), hn '\n' (by decide), hn '\t' (by decide),
    hn '\x0d' (by decide)]

/-- A text that spells a value starts with a character that is no blank and closes nothing. -/
theorem Spells.head {d : Datum Float} {cs : List Char} (h : Spells d cs) :
    ∃ c rest, cs = c :: rest ∧ isBlank c = false ∧ c ≠ ']' ∧ c ≠ '\x7d' := by
  cases h with
  | null => exact ⟨_, _, rfl, by decide, by decide, by decide⟩
  | yes => exact ⟨_, _, rfl, by decide, by decide, by decide⟩
  | no => exact ⟨_, _, rfl, by decide, by decide, by decide⟩
  | number h =>
    obtain ⟨c, rest, rfl, hc⟩ := head_of_number h
    rcases hc with rfl | hc
    · exact ⟨_, _, rfl, by decide, by decide, by decide⟩
    · refine ⟨c, rest, rfl, isBlank_of_isDigit hc, ?_, ?_⟩
      · rintro rfl
        exact absurd hc (by decide)
      · rintro rfl
        exact absurd hc (by decide)
  | text s =>
    rw [toList_quote]
    exact ⟨_, _, rfl, by decide, by decide, by decide⟩
  | noItems => exact ⟨_, _, rfl, by decide, by decide, by decide⟩
  | items => exact ⟨_, _, rfl, by decide, by decide, by decide⟩
  | noFields => exact ⟨_, _, rfl, by decide, by decide, by decide⟩
  | fields => exact ⟨_, _, rfl, by decide, by decide, by decide⟩

/-- What stands after a value ends a number. -/
theorem endsNumber_after {after r : List Char} {c : Char} (ha : Blank after)
    (hc : goesOn c = false) : EndsNumber (after ++ c :: r) := by
  cases after with
  | nil => exact endsNumber_cons hc
  | cons b rest =>
    refine endsNumber_cons ?_
    have hb := ha b (by simp)
    simp only [isBlank, Bool.or_eq_true, decide_eq_true_eq] at hb
    rcases hb with ((rfl | rfl) | rfl) | rfl <;> decide

/-! ## Reading -/

/-- The shape takes all of the value. -/
inductive Covers : Shape → Datum Float → Prop where
  | whole (d : Datum Float) : Covers .whole d
  | fields {named : List (String × Shape)} {fields : List (String × Datum Float)}
      (hnamed : ∀ k d, (k, d) ∈ fields → (named.lookup k).isSome)
      (hunder : ∀ k d shape, (k, d) ∈ fields → named.lookup k = some shape → Covers shape d) :
      Covers (.fields named) (.record fields)

/-- The shape takes all of every entry. -/
def CoversFields (shape : Shape) (fields : List (String × Datum Float)) : Prop :=
  ∀ k d, (k, d) ∈ fields → ∃ under, shape.under? k = some under ∧ Covers under d

theorem Covers.toFields {shape : Shape} {fields : List (String × Datum Float)}
    (h : Covers shape (.record fields)) : CoversFields shape fields := by
  intro k d hk
  cases h with
  | whole => exact ⟨.whole, rfl, .whole d⟩
  | fields hnamed hunder =>
    obtain ⟨under, hu⟩ := Option.isSome_iff_exists.1 (hnamed k d hk)
    exact ⟨under, hu, hunder k d under hk hu⟩

theorem Covers.eq_whole {shape : Shape} {items : List (Datum Float)}
    (h : Covers shape (.list items)) : shape = .whole := by
  cases h
  rfl

/-- A number stands where no other value begins. -/
theorem value_of_number {cs r : List Char} {d : Datum Float} (h : number cs = some (d, []))
    (hr : EndsNumber r) (depth : Nat) (shape : Shape) :
    value depth shape (cs ++ r) = some (d, r) := by
  have whole := number_append h hr
  obtain ⟨c, rest, rfl, hc⟩ := head_of_number h
  rw [List.cons_append] at whole ⊢
  have hne : ∀ c' : Char, c' ≠ '-' → c'.isDigit = false → c ≠ c' := by
    rintro c' hm hd rfl
    rcases hc with hc | hc
    · exact hm hc
    · rw [hc] at hd
      cases hd
  have blank : isBlank c = false := by
    rcases hc with rfl | hc
    · decide
    · exact isBlank_of_isDigit hc
  unfold value
  rw [skipBlanks_cons blank]
  split
  · rename_i heq
    exact absurd (List.cons.inj heq).1 (hne 'n' (by decide) (by decide))
  · rename_i heq
    exact absurd (List.cons.inj heq).1 (hne 't' (by decide) (by decide))
  · rename_i heq
    exact absurd (List.cons.inj heq).1 (hne 'f' (by decide) (by decide))
  · rename_i heq
    exact absurd (List.cons.inj heq).1 (hne '"' (by decide) (by decide))
  · rename_i heq
    exact absurd (List.cons.inj heq).1 (hne '[' (by decide) (by decide))
  · rename_i heq
    exact absurd (List.cons.inj heq).1 (hne '\x7b' (by decide) (by decide))
  · exact whole

theorem value_skipBlanks (depth : Nat) (shape : Shape) (cs : List Char) :
    value depth shape (skipBlanks cs) = value depth shape cs := by
  unfold value
  rw [skipBlanks_skipBlanks]

/-- Blanks before a value do not matter. -/
theorem value_append {blanks : List Char} (hb : Blank blanks) (depth : Nat) (shape : Shape)
    (cs : List Char) : value depth shape (blanks ++ cs) = value depth shape cs := by
  unfold value
  rw [skipBlanks_append hb]

/-- A text has at least as many characters as there are items to spell. -/
theorem SpellsItems.length_le {items : List (Datum Float)} {cs : List Char}
    (h : SpellsItems items cs) : items.length ≤ cs.length := by
  cases h with
  | last hb ha hd => simp; omega
  | more hb hd hrest =>
    have := hrest.length_le
    simp only [List.length_append, List.length_cons]
    omega

theorem SpellsFields.length_le {fields : List (String × Datum Float)} {cs : List Char}
    (h : SpellsFields fields cs) : fields.length ≤ cs.length := by
  cases h with
  | last hb hg ha hd => simp; omega
  | more hb hg hd hrest =>
    have := hrest.length_le
    simp only [List.length_append, List.length_cons]
    omega

/-- The blanks before the first item skipped: a value comes, and the fuel left is enough. -/
theorem SpellsItems.head {items : List (Datum Float)} {cs : List Char}
    (h : SpellsItems items cs) (r : List Char) :
    ∃ c rest, skipBlanks (cs ++ r) = c :: rest ∧ c ≠ ']' ∧ items.length ≤ rest.length + 2 := by
  have first {d : Datum Float} {before inner : List Char} (hb : Blank before)
      (hd : Spells d inner) (tail : List Char) :
      ∃ c rest, skipBlanks (before ++ (inner ++ tail)) = c :: rest ∧ c ≠ ']' ∧
        tail.length ≤ rest.length := by
    obtain ⟨c, rest, rfl, hc, hne, -⟩ := hd.head
    refine ⟨c, rest ++ tail, ?_, hne, by simp⟩
    rw [skipBlanks_append hb, List.cons_append, skipBlanks_cons hc]
  cases h with
  | last hb ha hd =>
    simp only [List.append_assoc]
    obtain ⟨c, rest, hskip, hne, -⟩ := first hb hd _
    exact ⟨c, rest, hskip, hne, by simp⟩
  | more hb hd hrest =>
    simp only [List.append_assoc]
    obtain ⟨c, rest, hskip, hne, hlen⟩ := first hb hd _
    refine ⟨c, rest, hskip, hne, ?_⟩
    have := hrest.length_le
    simp only [List.cons_append, List.length_cons, List.length_append] at hlen ⊢
    omega

theorem SpellsFields.head {fields : List (String × Datum Float)} {cs : List Char}
    (h : SpellsFields fields cs) (r : List Char) :
    ∃ rest, skipBlanks (cs ++ r) = '"' :: rest ∧ fields.length ≤ rest.length + 2 := by
  have first {before : List Char} (hb : Blank before) (key : String) (tail : List Char) :
      ∃ rest, skipBlanks (before ++ ((quote key).toList ++ tail)) = '"' :: rest ∧
        tail.length ≤ rest.length := by
    rw [skipBlanks_append hb, toList_quote, List.cons_append, skipBlanks_cons (by decide)]
    refine ⟨_, rfl, ?_⟩
    simp only [List.length_append, List.length_cons]
    omega
  cases h with
  | last hb hg ha hd =>
    simp only [List.append_assoc]
    obtain ⟨rest, hskip, -⟩ := first hb _ _
    exact ⟨rest, hskip, by simp⟩
  | more hb hg hd hrest =>
    simp only [List.append_assoc]
    obtain ⟨rest, hskip, hlen⟩ := first hb _ _
    refine ⟨rest, hskip, ?_⟩
    have := hrest.length_le
    simp only [List.cons_append, List.length_cons, List.length_append] at hlen ⊢
    omega

theorem items_skipBlanks (depth fuel : Nat) (shape : Shape) (done : List (Datum Float))
    (cs : List Char) :
    items (value depth) fuel shape done (skipBlanks cs) =
      items (value depth) fuel shape done cs := by
  cases fuel with
  | zero => rfl
  | succ fuel => rw [items, items, value_skipBlanks]

theorem entries_skipBlanks (depth fuel : Nat) (shape : Shape) (done : List (String × Datum Float))
    (cs : List Char) :
    entries (value depth) fuel shape done (skipBlanks cs) =
      entries (value depth) fuel shape done cs := by
  cases fuel with
  | zero => rfl
  | succ fuel => rw [entries, entries, skipBlanks_skipBlanks]

theorem value_list (depth : Nat) (shape : Shape) (cs : List Char) :
    value (depth + 1) shape ('[' :: cs) =
      match skipBlanks cs with
      | ']' :: rest => some (.list [], rest)
      | rest => items (value depth) (rest.length + 1) shape [] rest := by
  unfold value
  rfl

theorem value_record (depth : Nat) (shape : Shape) (cs : List Char) :
    value (depth + 1) shape ('\x7b' :: cs) =
      match skipBlanks cs with
      | '\x7d' :: rest => some (.record [], rest)
      | rest => entries (value depth) (rest.length + 1) shape [] rest := by
  unfold value
  rfl

/-- One item read, and the character after it found. -/
theorem items_step {depth fuel : Nat} {done : List (Datum Float)} {d : Datum Float}
    {cs tail : List Char} {c : Char} {rest : List Char}
    (hd : value depth .whole cs = some (d, tail)) (hc : skipBlanks tail = c :: rest) :
    items (value depth) (fuel + 1) .whole done cs =
      if c = ',' then items (value depth) fuel .whole (d :: done) rest
      else if c = ']' then some (.list (d :: done).reverse, rest)
      else none := by
  rw [items]
  simp only [Shape.first, hd, hc, Shape.others]
  split
  · rename_i heq
    obtain ⟨rfl, rfl⟩ := List.cons.inj heq
    rfl
  · rename_i heq
    obtain ⟨rfl, rfl⟩ := List.cons.inj heq
    rfl
  · rename_i hcomma hclose
    rw [if_neg, if_neg]
    · rintro rfl
      exact hclose _ rfl
    · rintro rfl
      exact hcomma _ rfl

/-- One entry read, and the character after it found. -/
theorem entries_step {depth fuel : Nat} {shape under : Shape}
    {done : List (String × Datum Float)} {key : String} {d : Datum Float}
    {before gap cs tail : List Char} {c : Char} {rest : List Char} (hb : Blank before)
    (hu : shape.under? key = some under) (hd : value depth under (gap ++ cs) = some (d, tail))
    (hc : skipBlanks tail = c :: rest) :
    entries (value depth) (fuel + 1) shape done
        (before ++ ((quote key).toList ++ ':' :: (gap ++ cs))) =
      if c = ',' then entries (value depth) fuel shape ((key, d) :: done) rest
      else if c = '}' then some (.record ((key, d) :: done).reverse, rest)
      else none := by
  have hkey : skipBlanks (before ++ ((quote key).toList ++ ':' :: (gap ++ cs))) =
      (quote key).toList ++ ':' :: (gap ++ cs) := by
    rw [skipBlanks_append hb, toList_quote, List.cons_append, skipBlanks_cons (by decide)]
  rw [entries, hkey, quoted_quote]
  simp only [skipBlanks_cons (c := ':') (by decide), entry, hu, hd, Option.map_some, hc,
    List.singleton_append]
  split
  · rename_i heq
    obtain ⟨rfl, rfl⟩ := List.cons.inj heq
    rfl
  · rename_i heq
    obtain ⟨rfl, rfl⟩ := List.cons.inj heq
    rfl
  · rename_i hcomma hclose
    rw [if_neg, if_neg]
    · rintro rfl
      exact hclose _ rfl
    · rintro rfl
      exact hcomma _ rfl

mutual

/-- **The reader gives the value that a text spells**, whatever follows it. -/
theorem value_of_spells : ∀ {d : Datum Float} {cs : List Char}, Spells d cs →
    ∀ {depth : Nat} {shape : Shape} {r : List Char}, Covers shape d → d.nesting ≤ depth →
    EndsNumber r → value depth shape (cs ++ r) = some (d, r)
  | _, _, .null, depth, shape, r, _, _, _ => by
    unfold value
    rfl
  | _, _, .yes, depth, shape, r, _, _, _ => by
    unfold value
    rfl
  | _, _, .no, depth, shape, r, _, _, _ => by
    unfold value
    rfl
  | _, _, .number h, depth, shape, r, _, _, hr => value_of_number h hr depth shape
  | _, _, .text s, depth, shape, r, _, _, _ => by
    have whole := quoted_quote s r
    rw [toList_quote, List.cons_append] at whole ⊢
    unfold value
    rw [skipBlanks_cons (by decide)]
    simp only [whole, Option.map_some]
  | _, _, .noItems, depth, shape, r, _, hdepth, _ => by
    obtain ⟨depth, rfl⟩ : ∃ k, depth = k + 1 :=
      ⟨depth - 1, by simp [Datum.nesting] at hdepth; omega⟩
    rfl
  | _, _, .items h, depth, shape, r, hcov, hdepth, _ => by
    rw [Datum.nesting] at hdepth
    obtain ⟨depth, rfl⟩ : ∃ k, depth = k + 1 := ⟨depth - 1, by omega⟩
    obtain ⟨c, rest, hskip, hc, hfuel⟩ := h.head r
    have read := items_of_spells h depth ((c :: rest).length + 1) r (by omega)
      (by simpa using hfuel) []
    rw [← items_skipBlanks, hskip] at read
    obtain rfl := hcov.eq_whole
    rw [List.cons_append, value_list, hskip]
    split
    · rename_i heq
      exact absurd (List.cons.inj heq).1 hc
    · exact read
  | _, _, .noFields, depth, shape, r, _, hdepth, _ => by
    obtain ⟨depth, rfl⟩ : ∃ k, depth = k + 1 :=
      ⟨depth - 1, by simp [Datum.nesting] at hdepth; omega⟩
    rfl
  | _, _, .fields h, depth, shape, r, hcov, hdepth, _ => by
    rw [Datum.nesting] at hdepth
    obtain ⟨depth, rfl⟩ : ∃ k, depth = k + 1 := ⟨depth - 1, by omega⟩
    obtain ⟨rest, hskip, hfuel⟩ := h.head r
    have read := entries_of_spells h depth (('"' :: rest).length + 1) shape r hcov.toFields
      (by omega) (by simpa using hfuel) []
    rw [← entries_skipBlanks, hskip] at read
    rw [List.cons_append, value_record, hskip]
    exact read

theorem items_of_spells : ∀ {ds : List (Datum Float)} {cs : List Char}, SpellsItems ds cs →
    ∀ (depth fuel : Nat) (r : List Char), Datum.itemsNesting ds ≤ depth → ds.length ≤ fuel →
    ∀ done, items (value depth) fuel .whole done (cs ++ r) = some (.list (done.reverse ++ ds), r)
  | _, _, @SpellsItems.last d before cs after hb ha h,
      depth, fuel, r, hdepth, hfuel, done => by
    obtain ⟨fuel, rfl⟩ : ∃ k, fuel = k + 1 := ⟨fuel - 1, by simp at hfuel; omega⟩
    rw [Datum.itemsNesting, Datum.itemsNesting] at hdepth
    have read := value_of_spells h (r := after ++ ']' :: r) (.whole d)
      (Nat.le_trans (Nat.le_max_left _ _) hdepth) (endsNumber_after ha (by decide))
    rw [← value_append hb] at read
    have close : skipBlanks (after ++ ']' :: r) = ']' :: r := by
      rw [skipBlanks_append ha, skipBlanks_cons (by decide)]
    simp only [List.append_assoc, List.cons_append, List.nil_append]
    rw [items_step read close, if_neg (by decide), if_pos rfl, List.reverse_cons]
  | _, _, @SpellsItems.more d items before cs rest hb h hrest,
      depth, fuel, r, hdepth, hfuel, done => by
    obtain ⟨fuel, rfl⟩ : ∃ k, fuel = k + 1 := ⟨fuel - 1, by simp at hfuel; omega⟩
    rw [Datum.itemsNesting] at hdepth
    have read := value_of_spells h (r := ',' :: (rest ++ r)) (.whole d)
      (Nat.le_trans (Nat.le_max_left _ _) hdepth) (endsNumber_cons (by decide))
    rw [← value_append hb] at read
    have comma : skipBlanks (',' :: (rest ++ r)) = ',' :: (rest ++ r) :=
      skipBlanks_cons (by decide) _
    simp only [List.append_assoc, List.cons_append]
    rw [items_step read comma, if_pos rfl]
    rw [items_of_spells hrest depth fuel r (Nat.le_trans (Nat.le_max_right _ _) hdepth)
      (by simpa using hfuel)]
    simp

theorem entries_of_spells : ∀ {fields : List (String × Datum Float)} {cs : List Char},
    SpellsFields fields cs → ∀ (depth fuel : Nat) (shape : Shape) (r : List Char),
    CoversFields shape fields → Datum.fieldsNesting fields ≤ depth → fields.length ≤ fuel →
    ∀ done, entries (value depth) fuel shape done (cs ++ r) =
      some (.record (done.reverse ++ fields), r)
  | _, _, @SpellsFields.last key d before gap cs after hb hg ha h,
      depth, fuel, shape, r, hcov, hdepth, hfuel, done => by
    obtain ⟨fuel, rfl⟩ : ∃ k, fuel = k + 1 := ⟨fuel - 1, by simp at hfuel; omega⟩
    rw [Datum.fieldsNesting, Datum.fieldsNesting] at hdepth
    obtain ⟨under, hu, hd⟩ := hcov key d (by simp)
    have read := value_of_spells h (r := after ++ '\x7d' :: r) hd
      (Nat.le_trans (Nat.le_max_left _ _) hdepth) (endsNumber_after ha (by decide))
    rw [← value_append hg] at read
    have close : skipBlanks (after ++ '\x7d' :: r) = '\x7d' :: r := by
      rw [skipBlanks_append ha, skipBlanks_cons (by decide)]
    simp only [List.append_assoc, List.cons_append, List.nil_append]
    rw [entries_step hb hu read close, if_neg (by decide), if_pos rfl, List.reverse_cons]
  | _, _, @SpellsFields.more key d fields before gap cs rest hb hg h hrest,
      depth, fuel, shape, r, hcov, hdepth, hfuel, done => by
    obtain ⟨fuel, rfl⟩ : ∃ k, fuel = k + 1 := ⟨fuel - 1, by simp at hfuel; omega⟩
    rw [Datum.fieldsNesting] at hdepth
    obtain ⟨under, hu, hd⟩ := hcov key d (by simp)
    have read := value_of_spells h (r := ',' :: (rest ++ r)) hd
      (Nat.le_trans (Nat.le_max_left _ _) hdepth) (endsNumber_cons (by decide))
    rw [← value_append hg] at read
    have comma : skipBlanks (',' :: (rest ++ r)) = ',' :: (rest ++ r) :=
      skipBlanks_cons (by decide) _
    have others : CoversFields shape _ := fun k e hk => hcov k e (List.mem_cons_of_mem _ hk)
    simp only [List.append_assoc, List.cons_append]
    rw [entries_step hb hu read comma, if_pos rfl]
    rw [entries_of_spells hrest depth fuel shape r others
      (Nat.le_trans (Nat.le_max_right _ _) hdepth) (by simpa using hfuel)]
    simp

end

/-! ## Writing -/

/-- The part of a written record spells the entry. -/
def SpellsEntry (gap : List Char) (e : String × Datum Float) (part : String) : Prop :=
  ∃ cs, part.toList = (quote e.1).toList ++ ':' :: (gap ++ cs) ∧ Spells e.2 cs

theorem spellsEntry_append (colon : String) {body : String} {gap : List Char}
    (hcolon : colon.toList = ':' :: gap) (key : String) {d : Datum Float}
    (h : Spells d body.toList) : SpellsEntry gap (key, d) (quote key ++ colon ++ body) :=
  ⟨body.toList, by simp [hcolon], h⟩

/-- Parts that spell the items of a list, put together. -/
theorem spellsItems_intercalate (sep : String) {gap after : List Char}
    (hsep : sep.toList = ',' :: gap) (hg : Blank gap) (ha : Blank after)
    {d : Datum Float} {ds : List (Datum Float)} {part : String} {parts : List String}
    (hd : Spells d part.toList)
    (hds : List.Forall₂ (fun d (p : String) => Spells d p.toList) ds parts) :
    SpellsItems (d :: ds)
      (gap ++ ((String.intercalate sep (part :: parts)).toList ++ (after ++ [']']))) := by
  induction hds generalizing d part with
  | nil =>
    rw [String.intercalate_singleton]
    exact .last hg ha hd
  | cons hd' hds ih =>
    have rest := ih hd'
    rw [String.intercalate_cons_cons]
    simp only [String.toList_append, hsep, List.append_assoc, List.cons_append] at rest ⊢
    exact .more hg hd rest

/-- Parts that spell the entries of a record, put together. -/
theorem spellsFields_intercalate (sep : String) {gap colonGap after : List Char}
    (hsep : sep.toList = ',' :: gap) (hg : Blank gap) (hc : Blank colonGap) (ha : Blank after)
    {e : String × Datum Float} {es : List (String × Datum Float)} {part : String}
    {parts : List String} (he : SpellsEntry colonGap e part)
    (hes : List.Forall₂ (SpellsEntry colonGap) es parts) :
    SpellsFields (e :: es)
      (gap ++ ((String.intercalate sep (part :: parts)).toList ++ (after ++ ['\x7d']))) := by
  induction hes generalizing e part with
  | nil =>
    obtain ⟨cs, hpart, hcs⟩ := he
    rw [String.intercalate_singleton, hpart]
    simp only [List.append_assoc, List.cons_append]
    exact .last hg hc ha hcs
  | cons he' hes ih =>
    obtain ⟨cs, hpart, hcs⟩ := he
    have rest := ih he'
    rw [String.intercalate_cons_cons]
    simp only [String.toList_append, hsep, hpart, List.append_assoc, List.cons_append] at rest ⊢
    exact .more hg hc hcs rest

/-- A finite real spells itself, any other value `null`. -/
theorem spells_real (x : Float) : Spells (Datum.real x).stored (real x).toList := by
  rw [Datum.stored_real]
  unfold real
  split
  · rename_i hfin
    exact .number (number_write hfin)
  · exact .null

section Compact

theorem spells_joinedItems {ds : List (Datum Float)} {parts : List String}
    (h : List.Forall₂ (fun d (p : String) => Spells d p.toList) ds parts) :
    Spells (.list ds) ("[" ++ String.intercalate "," parts ++ "]").toList := by
  cases h with
  | nil => exact .noItems
  | cons first others =>
    have whole := spellsItems_intercalate "," rfl blank_nil blank_nil first others
    simpa using Spells.items whole

theorem spells_joinedFields {es : List (String × Datum Float)} {parts : List String}
    (h : List.Forall₂ (SpellsEntry []) es parts) :
    Spells (.record es) ("\x7b" ++ String.intercalate "," parts ++ "\x7d").toList := by
  cases h with
  | nil => exact .noFields
  | cons first others =>
    have whole := spellsFields_intercalate "," rfl blank_nil blank_nil blank_nil
      first others
    simpa using Spells.fields whole

mutual

/-- A document without blanks spells what is stored. -/
theorem spells_compact : ∀ d : Datum Float, (∀ n ∈ d.ints, Has64Bits n) →
    Spells d.stored (compact d).toList
  | .null, _ => .null
  | .bool true, _ => .yes
  | .bool false, _ => .no
  | .int n, hi => .number (number_toString (hi n (by simp [Datum.ints])))
  | .real x, _ => spells_real x
  | .text s, _ => .text s
  | .list ds, hi => by
    rw [compact, Datum.stored_list]
    exact spells_joinedItems (spells_compactItems ds hi)
  | .record es, hi => by
    rw [compact, Datum.stored_record]
    exact spells_joinedFields (spells_compactFields es hi)

theorem spells_compactItems : ∀ ds : List (Datum Float), (∀ n ∈ Datum.itemsInts ds, Has64Bits n) →
    List.Forall₂ (fun d (p : String) => Spells d p.toList) (ds.map Datum.stored) (compactItems ds)
  | [], _ => .nil
  | d :: rest, hi => by
    simp only [Datum.itemsInts, List.mem_append] at hi
    exact .cons (spells_compact d fun n h => hi n (.inl h))
      (spells_compactItems rest fun n h => hi n (.inr h))

theorem spells_compactFields : ∀ es : List (String × Datum Float),
    (∀ n ∈ Datum.fieldsInts es, Has64Bits n) →
    List.Forall₂ (SpellsEntry []) (es.map fun e => (e.1, e.2.stored)) (compactFields es)
  | [], _ => .nil
  | (k, d) :: rest, hi => by
    simp only [Datum.fieldsInts, List.mem_append] at hi
    have first := spells_compact d fun n h => hi n (.inl h)
    exact .cons (spellsEntry_append ":" rfl k first)
      (spells_compactFields rest fun n h => hi n (.inr h))

end

end Compact

section Pretty

theorem blank_newline (level : Nat) : Blank (newline level).toList := by
  intro c hc
  simp only [newline, String.toList_append, String.toList_ofList, List.mem_append,
    List.mem_replicate] at hc
  rcases hc with hc | ⟨-, rfl⟩
  · obtain rfl : c = '\n' := by simpa using hc
    decide
  · decide

theorem spells_itemsBlock {level : Nat} {ds : List (Datum Float)} {parts : List String}
    (h : List.Forall₂ (fun d (p : String) => Spells d p.toList) ds parts) :
    Spells (.list ds) (block "[" "]" level parts).toList := by
  cases h with
  | nil =>
    have empty : block "[" "]" level [] = "[]" := by simp [block]
    rw [empty]
    exact .noItems
  | cons first others =>
    have whole := spellsItems_intercalate ("," ++ newline (level + 1)) (by simp)
      (blank_newline (level + 1)) (blank_newline level) first others
    unfold block
    simpa using Spells.items whole

theorem spells_fieldsBlock {level : Nat} {es : List (String × Datum Float)} {parts : List String}
    (h : List.Forall₂ (SpellsEntry [' ']) es parts) :
    Spells (.record es) (block "\x7b" "\x7d" level parts).toList := by
  cases h with
  | nil =>
    have empty : block "\x7b" "\x7d" level [] = "\x7b\x7d" := by simp [block]
    rw [empty]
    exact .noFields
  | cons first others =>
    have space : Blank [' '] := by
      intro c hc
      obtain rfl : c = ' ' := by simpa using hc
      decide
    have whole := spellsFields_intercalate ("," ++ newline (level + 1)) (by simp)
      (blank_newline (level + 1)) space (blank_newline level) first others
    unfold block
    simpa using Spells.fields whole

mutual

/-- A document on several lines spells what is stored. -/
theorem spells_prettyAt : ∀ (d : Datum Float) (level : Nat), (∀ n ∈ d.ints, Has64Bits n) →
    Spells d.stored (prettyAt level d).toList
  | .null, _, _ => by
    rw [prettyAt]
    exact .null
  | .bool true, _, _ => by
    rw [prettyAt]
    exact .yes
  | .bool false, _, _ => by
    rw [prettyAt]
    exact .no
  | .int n, _, hi => by
    rw [prettyAt]
    exact .number (number_toString (hi n (by simp [Datum.ints])))
  | .real x, _, _ => by
    rw [prettyAt]
    exact spells_real x
  | .text s, _, _ => by
    rw [prettyAt]
    exact .text s
  | .list ds, level, hi => by
    rw [prettyAt, Datum.stored_list]
    exact spells_itemsBlock (spells_prettyItems ds (level + 1) hi)
  | .record es, level, hi => by
    rw [prettyAt, Datum.stored_record]
    exact spells_fieldsBlock (spells_prettyFields es (level + 1) hi)

theorem spells_prettyItems : ∀ (ds : List (Datum Float)) (level : Nat),
    (∀ n ∈ Datum.itemsInts ds, Has64Bits n) →
    List.Forall₂ (fun d (p : String) => Spells d p.toList) (ds.map Datum.stored)
      (prettyItems level ds)
  | [], _, _ => .nil
  | d :: rest, level, hi => by
    simp only [Datum.itemsInts, List.mem_append] at hi
    exact .cons (spells_prettyAt d level fun n h => hi n (.inl h))
      (spells_prettyItems rest level fun n h => hi n (.inr h))

theorem spells_prettyFields : ∀ (es : List (String × Datum Float)) (level : Nat),
    (∀ n ∈ Datum.fieldsInts es, Has64Bits n) →
    List.Forall₂ (SpellsEntry [' ']) (es.map fun e => (e.1, e.2.stored)) (prettyFields level es)
  | [], _, _ => .nil
  | (k, d) :: rest, level, hi => by
    simp only [Datum.fieldsInts, List.mem_append] at hi
    have first := spells_prettyAt d level fun n h => hi n (.inl h)
    exact .cons (spellsEntry_append ": " rfl k first)
      (spells_prettyFields rest level fun n h => hi n (.inr h))

end

end Pretty

/-! ## Documents -/

/-- A text that spells a value parses to it. -/
theorem parseShape?_of_spells {shape : Shape} {d : Datum Float} {s : String}
    (h : Spells d s.toList) (hcov : Covers shape d) (hdepth : d.nesting ≤ maxDepth) :
    parseShape? shape s = some d := by
  have read := value_of_spells h hcov hdepth endsNumber_nil
  rw [List.append_nil] at read
  simp [parseShape?, read, skipBlanks]

/-- **A document without blanks is read back as it was stored.** -/
theorem parse?_compact (d : Datum Float) (hi : ∀ n ∈ d.ints, Has64Bits n)
    (hdepth : d.nesting ≤ maxDepth) : parse? (compact d) = some d.stored :=
  parseShape?_of_spells (spells_compact d hi) (.whole _)
    (Nat.le_trans (Datum.nesting_stored_le d) hdepth)

/-- **A document on several lines is read back as it was stored**, in any shape that takes all
of it. -/
theorem parseShape?_pretty (d : Datum Float) {shape : Shape} (hcov : Covers shape d.stored)
    (hi : ∀ n ∈ d.ints, Has64Bits n) (hdepth : d.nesting ≤ maxDepth) :
    parseShape? shape (pretty d) = some d.stored :=
  parseShape?_of_spells (spells_prettyAt d 0 hi) hcov
    (Nat.le_trans (Datum.nesting_stored_le d) hdepth)

end ControlBlocks.Json
