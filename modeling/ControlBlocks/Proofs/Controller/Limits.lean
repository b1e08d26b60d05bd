import ControlBlocks.Proofs.Binary64.Numbers
import ControlBlocks.Proofs.Block.Built
import ControlBlocks.Proofs.Calls.Basic

/-!
# Output limits of the controller

In binary floating point, an output is within the limits just if what was limited is a number.

* `Config.asked` — the output before it is limited, at any evaluation;
* `Config.Lost` — the memories after which it is no number any more, whatever comes;
* `lost_of_not_isFinite` — an infinite error leads to such a memory;
* `output_within_limits_iff` — which outputs are within the limits.
-/

set_option autoImplicit false

namespace ControlBlocks.Pid

open Binary64 (IsNumber IsFinite Runaway HasSign valueOf)

section Asked

variable {α : Type} [Scalar α] {c : Config α} {s : State α} {integral unlimited y error dt : α}

/-- The output before it is limited: at the first evaluation the proportional part, and then all
parts. -/
def Config.asked (c : Config α) (now : α) (s : State α) (d : Input α) : α :=
  match s.last with
  | none => c.k * c.error d
  | some last => c.unlimited (c.error d) (c.integral s (c.error d) (now - last))
      (c.slope s (c.error d) (now - last))

/-- What the memory adds to the output before it is limited: the integral and the derivative
part. -/
def Config.parts (c : Config α) (now : α) (s : State α) (d : Input α) : α × α :=
  match s.last with
  | none => (0, 0)
  | some last =>
    (if c.action.hasIntegral then c.k / c.ti * c.integral s (c.error d) (now - last) else 0,
      if c.action.hasDerivative then c.k * c.td * c.slope s (c.error d) (now - last) else 0)

theorem output_step (c : Config α) (now : α) (s : State α) (d : Input α) :
    (step c now s d).1 = c.limit (c.asked now s d) := by
  obtain ⟨integral, error, slope, _ | last⟩ := s
  · rfl
  · rfl

theorem time_step (c : Config α) (now : α) (s : State α) (d : Input α) :
    (step c now s d).2.last = some now := by
  obtain ⟨integral, error, slope, _ | last⟩ := s
  · rfl
  · rfl

theorem Config.integral_eq_add (hact : c.action.hasIntegral = true) (hdt : 0 < dt) :
    c.integral s error dt = s.integral + error * dt := by
  simp [Config.integral, hact, hdt]

theorem Config.unwound_eq_sub (hact : c.action.hasIntegral = true) (hdt : 0 < dt)
    (h : (y != unlimited) = true) :
    c.unwound integral unlimited y dt = integral - (unlimited - y) / (c.k * c.ni) * dt := by
  simp [Config.unwound, hact, hdt, h]

end Asked

variable {c : Config Float} {s : State Float} {d : Input Float} {now last : Float}

/-! ## Memories that are lost -/

/-- The memory of an action that the controller has is no number. -/
structure Config.Lost (c : Config Float) (s : State Float) : Prop where
  later : s.last ≠ none
  memory : c.action.hasIntegral = true ∧ ¬ IsNumber (valueOf s.integral) ∨
    c.action.hasDerivative = true ∧ ¬ IsNumber (valueOf s.slope)

/-- The integral stays no number. -/
theorem Config.not_isNumber_integral (h : ¬ IsNumber (valueOf s.integral)) (error dt : Float) :
    ¬ IsNumber (valueOf (c.integral s error dt)) := by
  unfold Config.integral
  split
  · exact fun number => h number.of_add.1
  · exact h

theorem Config.not_isNumber_slope (h : ¬ IsNumber (valueOf s.slope)) (error dt : Float) :
    ¬ IsNumber (valueOf (c.slope s error dt)) := by
  unfold Config.slope
  split
  · exact fun number => h number.of_add.1
  · exact h

theorem not_isNumber_integral_step (h : ¬ IsNumber (valueOf s.integral)) (now : Float)
    (d : Input Float) : ¬ IsNumber (valueOf (step c now s d).2.integral) := by
  cases hlast : s.last with
  | none => simpa only [step, hlast] using h
  | some last =>
    simp only [step, hlast, Config.unwound]
    split
    · exact fun number => Config.not_isNumber_integral h _ _ number.of_sub.1
    · exact Config.not_isNumber_integral h _ _

theorem not_isNumber_slope_step (h : ¬ IsNumber (valueOf s.slope)) (now : Float)
    (d : Input Float) : ¬ IsNumber (valueOf (step c now s d).2.slope) := by
  cases hlast : s.last with
  | none => simpa only [step, hlast] using h
  | some last =>
    simp only [step, hlast]
    exact Config.not_isNumber_slope h _ _

/-- What is lost stays lost. -/
theorem Config.Lost.step (h : c.Lost s) (now : Float) (d : Input Float) :
    c.Lost (step c now s d).2 where
  later := by
    rw [time_step]
    exact Option.some_ne_none now
  memory := h.memory.imp (fun h => ⟨h.1, not_isNumber_integral_step h.2 now d⟩)
    fun h => ⟨h.1, not_isNumber_slope_step h.2 now d⟩

/-- With a lost memory, what is limited is no number. -/
theorem Config.Lost.not_isNumber_asked (h : c.Lost s) (now : Float) (d : Input Float) :
    ¬ IsNumber (valueOf (c.asked now s d)) := by
  obtain ⟨last, hlast⟩ := Option.ne_none_iff_exists'.1 h.later
  simp only [asked, hlast, unlimited]
  intro number
  obtain ⟨hact, lost⟩ | ⟨hact, lost⟩ := h.memory
  · have part := number.of_add.1.of_add.2
    rw [if_pos hact] at part
    exact not_isNumber_integral lost _ _ part.of_mul.2
  · have part := number.of_add.2
    rw [if_pos hact] at part
    exact not_isNumber_slope lost _ _ part.of_mul.2

/-- An infinite error, or one that is no number, costs an integrating controller its memory as soon
as time has gone by: the integral and what it is drawn back by are infinite on the same side. -/
theorem lost_of_not_isFinite (hc : c.Sound) (hmin : IsFinite (valueOf c.yMin))
    (hmax : IsFinite (valueOf c.yMax)) (hact : c.action.hasIntegral = true)
    (hlast : s.last = some last) (hlater : 0 < now - last)
    (herror : ¬ IsFinite (valueOf (c.error d))) : c.Lost (step c now s d).2 := by
  obtain ⟨side, error⟩ := Binary64.exists_runaway herror
  have elapsed := Binary64.hasSign_of_pos hlater
  have gain := Binary64.hasSign_of_pos hc.k
  have summed : Runaway side (valueOf (c.integral s (c.error d) (now - last))) := by
    rw [Config.integral_eq_add hact hlater]
    exact (error.mul elapsed).add_left _
  have asked : Runaway side (valueOf (c.asked now s d)) := by
    simp only [Config.asked, hlast, Config.unlimited]
    exact ((error.mul_left gain).add _).add _
  have limited : (c.limit (c.asked now s d) != c.asked now s d) = true := by
    rw [bne, Bool.not_eq_true', Bool.eq_false_iff]
    exact asked.not_beq fun number => Binary64.isFinite_of_mem hmin hmax
      ((Binary64.clamp_mem_iff hc.limits).2 number)
  refine ⟨by rw [time_step]; exact Option.some_ne_none now, .inl ⟨hact, ?_⟩⟩
  have drawn : (step c now s d).2.integral = c.integral s (c.error d) (now - last) -
      (c.asked now s d - c.limit (c.asked now s d)) / (c.k * c.ni) * (now - last) := by
    simp only [Config.asked, hlast] at limited
    simp only [step, hlast, Config.asked]
    exact Config.unwound_eq_sub hact hlater limited
  rw [drawn]
  exact summed.sub_self
    (((asked.sub _).div (gain.mul (Binary64.hasSign_of_pos hc.ni))).mul elapsed)

/-! ## Which outputs are within the limits -/

/-- With a finite gain and range, and while the memory adds finite parts, what is limited is a
number just if the setpoint and the measurement have a difference. -/
theorem isNumber_asked_iff (hc : c.Sound) (hk : IsFinite (valueOf c.k))
    (hr : IsFinite (valueOf c.r))
    (hintegral : IsFinite (valueOf (c.parts now s d).1))
    (hslope : IsFinite (valueOf (c.parts now s d).2)) :
    IsNumber (valueOf (c.asked now s d)) ↔
      IsNumber (valueOf (d.setpoint - d.measurement)) := by
  have proportional : IsNumber (valueOf (c.k * c.error d)) ↔
      IsNumber (valueOf (d.setpoint - d.measurement)) := by
    unfold Config.error
    rw [Binary64.isNumber_mul_iff hk (Binary64.units_pos hc.k).ne',
      Binary64.isNumber_div_iff hr (Binary64.units_pos hc.r).ne']
    cases c.reverseActing with
    | true => exact Binary64.isNumber_mul_iff trivial (Binary64.units_finite_pos _).ne'
    | false => exact Binary64.isNumber_mul_iff trivial (Binary64.units_finite_neg _).ne
  rw [← proportional]
  cases hlast : s.last with
  | none => simp only [Config.asked, hlast]
  | some last =>
    simp only [Config.parts, hlast] at hintegral hslope
    simp only [Config.asked, hlast, Config.unlimited]
    rw [Binary64.isNumber_add_iff hslope, Binary64.isNumber_add_iff hintegral]

/-- **Which outputs are within the limits.**  A controller that could be built gives an output at
every call.  It is within the limits just if what was limited is a number, and is no number
otherwise.  With a finite gain and range, and while the memory adds finite parts, that is so on all
inputs that have a difference.  Once the memory of an action is no number, no output is within the
limits any more; and an infinite error, with time gone by, does that to an integral. -/
theorem output_within_limits_iff {b : Block Float (Input Float) (State Float) Float}
    (hb : block c = .ok b) (calls : ℕ → Call Float (Input Float)) :
    ∃ (memory : ℕ → State Float) (y : ℕ → Float),
      (∀ began n,
        b.Runs (b.start began) ((List.range n).map calls) ((List.range n).map y) (memory n)) ∧
      ∀ i,
        (c.yMin ≤ y i ∧ y i ≤ c.yMax ↔
          IsNumber (valueOf (c.asked (calls i).time (memory i) (calls i).input))) ∧
        (¬ (c.yMin ≤ y i ∧ y i ≤ c.yMax) → ¬ IsNumber (valueOf (y i))) ∧
        (IsFinite (valueOf c.k) → IsFinite (valueOf c.r) →
          IsFinite (valueOf (c.parts (calls i).time (memory i) (calls i).input).1) →
          IsFinite (valueOf (c.parts (calls i).time (memory i) (calls i).input).2) →
          IsNumber (valueOf ((calls i).input.setpoint - (calls i).input.measurement)) →
          c.yMin ≤ y i ∧ y i ≤ c.yMax) ∧
        (c.Lost (memory i) → ∀ j, i ≤ j → ¬ (c.yMin ≤ y j ∧ y j ≤ c.yMax)) ∧
        (c.action.hasIntegral = true → IsFinite (valueOf c.yMin) → IsFinite (valueOf c.yMax) →
          0 < (calls (i + 1)).time - (calls i).time →
          ¬ IsFinite (valueOf (c.error (calls (i + 1)).input)) → c.Lost (memory (i + 2))) := by
  obtain ⟨sound, rfl⟩ := block_eq_ok_iff.1 hb
  let memory := Block.memoryAt (step c) (initial c) calls
  let y := Block.outputAt (step c) (initial c) calls
  have limited (i : ℕ) : y i = c.limit (c.asked (calls i).time (memory i) (calls i).input) :=
    output_step c _ _ _
  have within (i : ℕ) : c.yMin ≤ y i ∧ y i ≤ c.yMax ↔
      IsNumber (valueOf (c.asked (calls i).time (memory i) (calls i).input)) := by
    rw [limited]
    exact Binary64.clamp_mem_iff sound.limits
  refine ⟨memory, y, fun _ n => Block.timed_stepsAs.runs_range _ calls n,
    fun i => ⟨within i, ?_, ?_, ?_, ?_⟩⟩
  · intro outside number
    rw [within] at outside
    rw [limited, Config.limit, Binary64.clamp_of_not_isNumber outside] at number
    exact outside number
  · intro hk hr hintegral hslope number
    exact (within i).2 ((isNumber_asked_iff sound hk hr hintegral hslope).2 number)
  · intro lost j hj
    have kept : c.Lost (memory j) := by
      induction j, hj using Nat.le_induction with
      | base => exact lost
      | succ j hj ih => exact ih.step _ _
    rw [within]
    exact kept.not_isNumber_asked _ _
  · intro hact hmin hmax hlater herror
    have last : (memory (i + 1)).last = some (calls i).time := time_step c _ _ _
    exact lost_of_not_isFinite sound hmin hmax hact last hlater herror

theorem block_standard :
    block (.standard : Config Float) = .ok (.timed "PID" (initial .standard) (step .standard)) := by
  have sound : (.standard : Config Float).Sound :=
    ⟨by decide +kernel, by decide +kernel, by decide +kernel, by decide +kernel, by decide +kernel,
      fun _ => by decide +kernel, fun h => by cases h⟩
  exact block_eq_ok_iff.2 ⟨sound, rfl⟩

/-- A setpoint of one, and a measurement of one half at all calls but the second, where it is
infinite. -/
def glitch : ℕ → Call Float (Input Float) :=
  fun i => ⟨Float.ofNat i, ⟨1.0, if i = 1 then 1.0 / 0.0 else 0.5⟩⟩

/-- The first two outputs are within the limits, and no later one is. -/
theorem output_within_limits_glitch :
    ∃ (b : Block Float (Input Float) (State Float) Float) (y : ℕ → Float),
      block .standard = .ok b ∧
      (∀ n, b.Gives none ((List.range n).map glitch) ((List.range n).map y)) ∧
      ∀ i, 0.0 ≤ y i ∧ y i ≤ 1.0 ↔ i < 2 := by
  obtain ⟨memory, y, runs, spec⟩ := output_within_limits_iff block_standard glitch
  have computed (i : ℕ) : y i = Block.outputAt (step .standard) (initial .standard) glitch i :=
    List.map_inj_left.1
      ((runs none (i + 1)).unique (Block.timed_stepsAs.runs_range _ glitch (i + 1))).1 i
      (List.mem_range.2 (Nat.lt_succ_self i))
  obtain ⟨-, -, -, -, lost⟩ := spec 0
  obtain ⟨-, -, -, outside, -⟩ := spec 2
  have infinite :
      ¬ IsFinite (valueOf ((Config.standard : Config Float).error (glitch 1).input)) := by
    have : valueOf ((Config.standard : Config Float).error (glitch 1).input) =
      .infinity .negative := by rfl
    rw [this]
    exact not_false
  have forever := outside (lost rfl trivial trivial (by decide +kernel) infinite)
  refine ⟨_, y, block_standard, fun n => ⟨_, runs none n⟩, fun i => ?_⟩
  constructor
  · intro within
    by_contra hlate
    exact forever i (not_lt.1 hlate) within
  · intro hearly
    rw [computed]
    obtain rfl | rfl : i = 0 ∨ i = 1 := by omega
    · decide +kernel
    · decide +kernel

/-- With the parameters that it has by default, the controller leaves its limits after one infinite
measurement, when the measurement is finite again. -/
theorem exists_output_outside_limits :
    ∃ b : Block Float (Input Float) (State Float) Float, block .standard = .ok b ∧
      b.Gives none [⟨0.0, ⟨1.0, 0.5⟩⟩, ⟨1.0, ⟨1.0, 1.0 / 0.0⟩⟩, ⟨2.0, ⟨1.0, 0.5⟩⟩]
        [0.5, 0.0, 0.0 / 0.0] ∧
      ¬ ((Config.standard : Config Float).yMin ≤ 0.0 / 0.0 ∧
        0.0 / 0.0 ≤ (Config.standard : Config Float).yMax) := by
  have gives := Block.timed_gives "PID" (initial (.standard : Config Float)) (step .standard) none
    [⟨0.0, ⟨1.0, 0.5⟩⟩, ⟨1.0, ⟨1.0, 1.0 / 0.0⟩⟩, ⟨2.0, ⟨1.0, 0.5⟩⟩]
  have outputs : Block.outputs (step .standard) (initial (.standard : Config Float))
      [⟨0.0, ⟨1.0, 0.5⟩⟩, ⟨1.0, ⟨1.0, 1.0 / 0.0⟩⟩, ⟨2.0, ⟨1.0, 0.5⟩⟩] = [0.5, 0.0, 0.0 / 0.0] := by
    decide +kernel
  rw [outputs] at gives
  exact ⟨_, block_standard, gives, by decide +kernel⟩

end ControlBlocks.Pid
