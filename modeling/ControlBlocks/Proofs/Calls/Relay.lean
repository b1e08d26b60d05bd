import ControlBlocks.Proofs.Binary64.Bands
import ControlBlocks.Proofs.Block.Built
import ControlBlocks.Proofs.Calls.Basic
import ControlBlocks.Sequential.Bistable

/-!
# The law of a relay

A comparator is on just if it was switched on at some call, or was on from the start, and has been
kept on at every call since.

* `Comparator.Held` — the law;
* `Comparator.follows_iff` — a relay follows it on all inputs just if the inputs that switch it on
  keep it on;
* `Comparator.Kind` — the five comparators;
* `Comparator.Kind.on_stay_iff` — of them, which have inputs that switch on and do not keep on;
* `Comparator.relay_law_iff` — which of them follow the law.
-/

set_option autoImplicit false

namespace ControlBlocks.Comparator

/-! ## Relays -/

section Relay

variable {α ι : Type} {start : Bool} {on stay : ι → Bool} {u : ℕ → ι} {i : ℕ}

/-- At the input `i`, the relay has been switched on at some input, or was on from the start, and
all inputs after that keep it on. -/
def Held (start : Bool) (on stay : ι → Bool) (u : ℕ → ι) (i : ℕ) : Prop :=
  (∃ j ≤ i, on (u j) = true ∧ ∀ m, j < m → m ≤ i → stay (u m) = true) ∨
    start = true ∧ ∀ m ≤ i, stay (u m) = true

theorem held_zero_iff :
    Held start on stay u 0 ↔ on (u 0) = true ∨ start = true ∧ stay (u 0) = true := by
  constructor
  · rintro (⟨j, hj, hon, -⟩ | ⟨hstart, hstay⟩)
    · obtain rfl : j = 0 := by omega
      exact .inl hon
    · exact .inr ⟨hstart, hstay 0 le_rfl⟩
  · rintro (hon | ⟨hstart, hstay⟩)
    · exact .inl ⟨0, le_rfl, hon, fun m hm hm' => absurd hm (by omega)⟩
    · refine .inr ⟨hstart, fun m hm => ?_⟩
      obtain rfl : m = 0 := by omega
      exact hstay

theorem held_succ_iff :
    Held start on stay u (i + 1) ↔
      on (u (i + 1)) = true ∨ Held start on stay u i ∧ stay (u (i + 1)) = true := by
  constructor
  · rintro (⟨j, hj, hon, hstay⟩ | ⟨hstart, hstay⟩)
    · rcases hj.lt_or_eq with hlt | rfl
      · refine .inr ⟨.inl ⟨j, Nat.le_of_lt_succ hlt, hon, ?_⟩, hstay (i + 1) hlt le_rfl⟩
        exact fun m hm hm' => hstay m hm (hm'.trans (Nat.le_succ i))
      · exact .inl hon
    · exact .inr ⟨.inr ⟨hstart, fun m hm => hstay m (hm.trans (Nat.le_succ i))⟩,
        hstay (i + 1) le_rfl⟩
  · rintro (hon | ⟨⟨j, hj, hon, hstay⟩ | ⟨hstart, hstay⟩, hlast⟩)
    · exact .inl ⟨i + 1, le_rfl, hon, fun m hm hm' => absurd hm (by omega)⟩
    · refine .inl ⟨j, by omega, hon, fun m hm hm' => ?_⟩
      rcases hm'.lt_or_eq with hlt | rfl
      · exact hstay m hm (Nat.le_of_lt_succ hlt)
      · exact hlast
    · refine .inr ⟨hstart, fun m hm => ?_⟩
      rcases hm.lt_or_eq with hlt | rfl
      · exact hstay m (Nat.le_of_lt_succ hlt)
      · exact hlast

theorem next_iff {y a b : Bool} (h : a = true → b = true) :
    next y a b = true ↔ a = true ∨ y = true ∧ b = true := by
  unfold next
  cases a with
  | false => simp
  | true => cases y <;> simp [h rfl]

/-- The step of a relay. -/
def relayStep (on stay : ι → Bool) (_ : α) (s : State) (u : ι) : Bool × State :=
  (next s.y (on u) (stay u), ⟨next s.y (on u) (stay u)⟩)

theorem relay_stepsAs (name : String) (start : Bool) (on stay : ι → Bool) :
    (relay name start on stay : Block α ι State Bool).StepsAs (relayStep on stay) :=
  fun _ _ => rfl

variable {calls : ℕ → Call α ι}

/-- The outputs of a relay. -/
def outputAt (start : Bool) (on stay : ι → Bool) (calls : ℕ → Call α ι) : ℕ → Bool :=
  Block.outputAt (relayStep on stay) ⟨start⟩ calls

theorem outputAt_zero :
    outputAt start on stay calls 0 = next start (on (calls 0).input) (stay (calls 0).input) :=
  rfl

theorem outputAt_succ :
    outputAt start on stay calls (i + 1) =
      next (outputAt start on stay calls i) (on (calls (i + 1)).input)
        (stay (calls (i + 1)).input) :=
  rfl

/-- Where inputs that switch it on keep it on, a relay is on just if it has been held. -/
theorem outputAt_iff (h : ∀ u, on u = true → stay u = true) (i : ℕ) :
    outputAt start on stay calls i = true ↔
      Held start on stay (fun j => (calls j).input) i := by
  induction i with
  | zero => rw [outputAt_zero, held_zero_iff, next_iff (h _)]
  | succ i ih => rw [outputAt_succ, held_succ_iff, next_iff (h _), ih]

/-- There, a constant input changes the output at the first call or not at all. -/
theorem outputAt_constant (h : ∀ u, on u = true → stay u = true)
    (hconst : ∀ i, (calls i).input = (calls 0).input) (i : ℕ) :
    outputAt start on stay calls i = outputAt start on stay calls 0 := by
  induction i with
  | zero => rfl
  | succ i ih =>
    rw [outputAt_succ, ih, hconst (i + 1), outputAt_zero]
    have := h (calls 0).input
    revert this
    cases start <;> cases on (calls 0).input <;> cases stay (calls 0).input <;> decide

/-- An input that switches a relay on and does not keep it on changes the output at each call. -/
theorem outputAt_succ_eq_not (start : Bool) (hon : on (calls 0).input = true)
    (hstay : stay (calls 0).input = false) (hconst : ∀ i, (calls i).input = (calls 0).input)
    (i : ℕ) : outputAt start on stay calls (i + 1) = !outputAt start on stay calls i := by
  rw [outputAt_succ, hconst (i + 1), hon, hstay]
  simp [next]

/-- A relay follows the law, and settles on constant inputs: these are the inputs, its outputs and
whether it was on from the start. -/
structure Follows (start : Bool) (on stay : ι → Bool) (u : ℕ → ι) (y : ℕ → Bool) : Prop where
  held : ∀ i, y i = true ↔ Held start on stay u i
  settled : (∀ i, u i = u 0) → ∀ i, y i = y 0

/-- A relay follows the law on all inputs just if the inputs that switch it on keep it on. -/
theorem follows_iff (time : α) (start : Bool) (on stay : ι → Bool) :
    (∀ calls : ℕ → Call α ι,
        Follows start on stay (fun j => (calls j).input) (outputAt start on stay calls)) ↔
      ∀ u, on u = true → stay u = true := by
  constructor
  · intro hlaw u hon
    by_contra hstay
    let same : ℕ → Call α ι := fun _ => ⟨time, u⟩
    have changes : outputAt start on stay same 1 = !outputAt start on stay same 0 :=
      outputAt_succ_eq_not start hon (Bool.eq_false_iff.2 hstay) (fun _ => rfl) 0
    rw [(hlaw same).settled (fun _ => rfl) 1] at changes
    exact Bool.not_ne_self _ changes.symm
  · intro h calls
    exact ⟨outputAt_iff h, outputAt_constant h⟩

end Relay

/-! ## The comparators -/

/-- The comparators of binary floating point, by what they compare. -/
inductive Kind : Type → Type where
  | hysteresis (low high : Float) : Kind Float
  | greater (band : Float) : Kind (Float × Float)
  | less (band : Float) : Kind (Float × Float)
  | greaterThreshold (t band : Float) : Kind Float
  | lessThreshold (t band : Float) : Kind Float

namespace Kind

variable {ι : Type}

/-- The block. -/
def block : Kind ι → Bool → Except (Fault Float) (Block Float ι State Bool)
  | hysteresis low high, start => Comparator.hysteresis low high start
  | greater band, start => Comparator.greater band start
  | less band, start => Comparator.less band start
  | greaterThreshold t band, start => Comparator.greaterThreshold t band start
  | lessThreshold t band, start => Comparator.lessThreshold t band start

/-- The name in faults. -/
def name : Kind ι → String
  | hysteresis _ _ => "Hysteresis"
  | greater _ => "Greater"
  | less _ => "Less"
  | greaterThreshold _ _ => "GreaterThreshold"
  | lessThreshold _ _ => "LessThreshold"

/-- The strict comparison, which switches on. -/
def on : Kind ι → ι → Bool
  | hysteresis _ high, u => high < u
  | greater _, (u₁, u₂) => u₂ < u₁
  | less _, (u₁, u₂) => u₁ < u₂
  | greaterThreshold t _, u => t < u
  | lessThreshold t _, u => u < t

/-- The comparison relaxed by the band, which keeps on. -/
def stay : Kind ι → ι → Bool
  | hysteresis low _, u => low ≤ u
  | greater band, (u₁, u₂) => u₂ - band < u₁
  | less band, (u₁, u₂) => u₁ < u₂ + band
  | greaterThreshold t band, u => t - band < u
  | lessThreshold t band, u => u < t + band

/-- The parameters pass the check. -/
def Accepted : Kind ι → Prop
  | hysteresis low high => ¬ high ≤ low
  | greater band => (0.0 : Float) ≤ band
  | less band => (0.0 : Float) ≤ band
  | greaterThreshold _ band => (0.0 : Float) ≤ band
  | lessThreshold _ band => (0.0 : Float) ≤ band

/-- The lower limit is no number, and there are inputs above the upper one. -/
def Chatters : Kind ι → Prop
  | hysteresis low high => ¬ low ≤ low ∧ high < (1.0 / 0.0 : Float)
  | _ => False

variable {d : Kind ι} {start : Bool} {b : Block Float ι State Bool}

theorem banded_eq_ok_iff {f : Float → Block Float ι State Bool} {band : Float}
    {block what : String} :
    (requireNonNegative band block what).map f = .ok b ↔ (0.0 : Float) ≤ band ∧ f band = b := by
  rw [map_eq_ok_iff]
  constructor
  · rintro ⟨_, hband, rfl⟩
    obtain ⟨hnonneg, rfl⟩ := requireNonNegative_eq_ok_iff.1 hband
    exact ⟨hnonneg, rfl⟩
  · rintro ⟨hnonneg, rfl⟩
    exact ⟨band, requireNonNegative_eq_ok_iff.2 ⟨hnonneg, rfl⟩, rfl⟩

theorem block_eq_ok_iff :
    d.block start = .ok b ↔ d.Accepted ∧ relay d.name start d.on d.stay = b := by
  cases d with
  | hysteresis low high =>
    show Comparator.hysteresis low high start = .ok b ↔ ¬ high ≤ low ∧ _
    unfold Comparator.hysteresis
    split
    · rename_i hlimits
      simp [hlimits]
    · rename_i hlimits
      rw [Except.ok.injEq, and_iff_right hlimits]
      exact Iff.rfl
  | greater band => exact banded_eq_ok_iff
  | less band => exact banded_eq_ok_iff
  | greaterThreshold t band => exact banded_eq_ok_iff
  | lessThreshold t band => exact banded_eq_ok_iff

/-- Below a number that is above another one. -/
theorem low_le_of_lt {low high u : Float} (hlow : low ≤ low) (hlimits : ¬ high ≤ low)
    (hon : high < u) : low ≤ u := by
  obtain ⟨hhigh, hu, hlt⟩ := (Binary64.lt_iff _ _).1 hon
  have number := (Binary64.le_self_iff low).1 hlow
  refine (Binary64.le_iff _ _).2 ⟨number, hu, ?_⟩
  by_contra hbelow
  exact hlimits ((Binary64.le_iff _ _).2 ⟨hhigh, number, (hlt.trans (not_le.1 hbelow)).le⟩)

/-- Which comparators are kept on by the inputs that switch them on. -/
theorem on_stay_iff (h : d.Accepted) : (∀ u, d.on u = true → d.stay u = true) ↔ ¬ d.Chatters := by
  cases d with
  | hysteresis low high =>
    constructor
    · rintro hstay ⟨hlow, hhigh⟩
      have kept : low ≤ (1.0 / 0.0 : Float) :=
        of_decide_eq_true (hstay (1.0 / 0.0) (decide_eq_true hhigh))
      exact hlow ((Binary64.le_self_iff low).2 ((Binary64.le_iff _ _).1 kept).1)
    · intro hquiet u hon
      have above : high < u := of_decide_eq_true hon
      have number : low ≤ low := by
        by_contra hlow
        exact hquiet ⟨hlow, Binary64.lt_infinity_of_lt above⟩
      exact decide_eq_true (low_le_of_lt number h above)
  | greater band =>
    refine iff_of_true ?_ not_false
    rintro ⟨u₁, u₂⟩ hon
    have above : u₂ < u₁ := of_decide_eq_true hon
    exact decide_eq_true (Binary64.sub_lt_of_lt h above)
  | less band =>
    refine iff_of_true ?_ not_false
    rintro ⟨u₁, u₂⟩ hon
    have below : u₁ < u₂ := of_decide_eq_true hon
    exact decide_eq_true (Binary64.lt_add_of_lt h below)
  | greaterThreshold t band =>
    refine iff_of_true ?_ not_false
    intro u hon
    have above : t < u := of_decide_eq_true hon
    exact decide_eq_true (Binary64.sub_lt_of_lt h above)
  | lessThreshold t band =>
    refine iff_of_true ?_ not_false
    intro u hon
    have below : u < t := of_decide_eq_true hon
    exact decide_eq_true (Binary64.lt_add_of_lt h below)

/-- A comparator that chatters is kept on by no input. -/
theorem Chatters.stay_eq_false (h : d.Chatters) (u : ι) : d.stay u = false := by
  cases d with
  | hysteresis low high =>
    apply decide_eq_false
    intro hstay
    exact h.1 ((Binary64.le_self_iff low).2 ((Binary64.le_iff _ _).1 hstay).1)
  | greater band => exact h.elim
  | less band => exact h.elim
  | greaterThreshold t band => exact h.elim
  | lessThreshold t band => exact h.elim

end Kind

/-- **The law of a relay.**  A comparator that could be built never fails.  It follows the law of a
relay on all inputs, and settles on constant ones, unless it is a hysteresis whose lower limit is no
number and whose upper limit is below some input.  Such a one changes its output at every call on a
constant input that switches it on. -/
theorem relay_law_iff {ι : Type} {d : Kind ι} {start : Bool} {b : Block Float ι State Bool}
    (hb : d.block start = .ok b) :
    ∃ y : (ℕ → Call Float ι) → ℕ → Bool,
      (∀ began calls n,
        b.Gives began ((List.range n).map calls) ((List.range n).map (y calls))) ∧
      ((∀ calls, Follows start d.on d.stay (fun j => (calls j).input) (y calls)) ↔
        ¬ d.Chatters) ∧
      (d.Chatters → ∀ calls, d.on (calls 0).input = true →
        (∀ i, (calls i).input = (calls 0).input) → ∀ i, y calls (i + 1) = !y calls i) := by
  obtain ⟨accepted, rfl⟩ := Kind.block_eq_ok_iff.1 hb
  refine ⟨outputAt start d.on d.stay, ?_, ?_, ?_⟩
  · intro began calls n
    exact (relay_stepsAs d.name start d.on d.stay).gives_range began calls n
  · rw [follows_iff (0.0 : Float) start d.on d.stay]
    exact Kind.on_stay_iff accepted
  · intro hchatters calls hon hconst i
    exact outputAt_succ_eq_not start hon (hchatters.stay_eq_false _) hconst i

/-- Three inputs: above a limit of two, less than one below it, and more than one below it. -/
def falling : ℕ → Call Float Float :=
  fun i => ⟨0.0, if i = 0 then 3.0 else if i = 1 then 1.5 else 0.5⟩

/-- The comparator is switched on, kept on within its band, and then off. -/
theorem relay_law_falling :
    ∃ (b : Block Float Float State Bool) (y : ℕ → Bool),
      (Kind.greaterThreshold 2.0 1.0).block false = .ok b ∧
      b.Gives none ((List.range 3).map falling) ((List.range 3).map y) ∧
      y 0 = true ∧ y 1 = true ∧ y 2 = false := by
  have accepted : (Kind.greaterThreshold 2.0 1.0).Accepted := by
    show (0.0 : Float) ≤ 1.0
    decide +kernel
  obtain ⟨b, built⟩ : ∃ b, (Kind.greaterThreshold 2.0 1.0).block false = .ok b :=
    ⟨_, Kind.block_eq_ok_iff.2 ⟨accepted, rfl⟩⟩
  obtain ⟨y, gives, law, -⟩ := relay_law_iff built
  obtain ⟨held, -⟩ := law.2 not_false falling
  have switched : (Kind.greaterThreshold 2.0 1.0).on (falling 0).input = true := by
    decide +kernel
  have kept : (Kind.greaterThreshold 2.0 1.0).stay (falling 1).input = true := by
    decide +kernel
  have released : ∀ j ≤ 2,
      (Kind.greaterThreshold 2.0 1.0).on (falling j).input = true → j = 0 := by
    decide +kernel
  have off : (Kind.greaterThreshold 2.0 1.0).stay (falling 2).input = false := by
    decide +kernel
  refine ⟨b, y falling, built, gives none falling 3, ?_, ?_, ?_⟩
  · exact (held 0).2 (.inl ⟨0, le_rfl, switched, fun m hm hm' => absurd hm (by omega)⟩)
  · refine (held 1).2 (.inl ⟨0, Nat.zero_le 1, switched, fun m hm hm' => ?_⟩)
    obtain rfl : m = 1 := by omega
    exact kept
  · rw [Bool.eq_false_iff, ne_eq, held 2]
    rintro (⟨j, hj, hon, hstay⟩ | ⟨hstart, -⟩)
    · obtain rfl := released j hj hon
      exact absurd (hstay 2 (by omega) le_rfl) (Bool.eq_false_iff.1 off)
    · exact absurd hstart Bool.false_ne_true

/-- On a constant input above its upper limit, a hysteresis without a lower limit goes on, off and
on again; the law has it on at the second call as well. -/
theorem exists_chatter :
    let d : Kind Float := .hysteresis (0.0 / 0.0) 1.0
    let calls : ℕ → Call Float Float := fun _ => ⟨0.0, 5.0⟩
    ∃ b : Block Float Float State Bool, d.block false = .ok b ∧
      b.Gives none ((List.range 3).map calls) [true, false, true] ∧
      Held false d.on d.stay (fun j => (calls j).input) 1 := by
  intro d calls
  have accepted : d.Accepted := by
    show ¬ (1.0 : Float) ≤ 0.0 / 0.0
    decide +kernel
  have outputs : (List.range 3).map (outputAt false d.on d.stay calls) = [true, false, true] := by
    decide +kernel
  have switched : d.on 5.0 = true := by decide +kernel
  refine ⟨_, Kind.block_eq_ok_iff.2 ⟨accepted, rfl⟩, ?_, ?_⟩
  · rw [← outputs]
    exact (relay_stepsAs d.name false d.on d.stay).gives_range none calls 3
  · exact .inl ⟨1, le_rfl, switched, fun m hm hm' => absurd hm (by omega)⟩

end ControlBlocks.Comparator
