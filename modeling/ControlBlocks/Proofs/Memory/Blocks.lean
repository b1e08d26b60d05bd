import ControlBlocks.Block.Catalogue
import ControlBlocks.Proofs.Memory.Kept

/-!
# The memories of the library

Every memory of a block of the library is read back as it was stored, or refused.

* one instance of `Kept` for each type of memory;
* `Component.Lawful` — a component whose memories obey the law;
* `Design.lawful` — so does every block that can be built.
-/

set_option autoImplicit false

namespace ControlBlocks

/-! ## Bistables, counters and comparators -/

instance : Kept Bistable.State where
  injective := by
    rintro ⟨y, u, clear⟩ ⟨y', u', clear'⟩ h
    simpa using Datum.record.inj h
  returns := by
    intro s
    refine .record [("y", written s.y), ("pre_u", written s.u), ("pre_clr", written s.clear)]
      rfl (fun _ => rfl) (by simp) ?_
    refine .field (returns_required s.y rfl) fun y hy => ?_
    refine .field (returns_required s.u rfl) fun u hu => ?_
    refine .field (returns_required s.clear rfl) fun clear hclear => ?_
    exact .built rfl (by simp [hy, hu, hclear])

instance : Kept Counter.State where
  injective := by
    rintro ⟨count, trigger⟩ ⟨count', trigger'⟩ h
    simpa using Datum.record.inj h
  returns := by
    intro s
    refine .record [("y", written s.count), ("pre_trigger", written s.trigger)]
      rfl (fun _ => rfl) (by simp) ?_
    refine .field (returns_required s.count rfl) fun count hcount => ?_
    refine .field (returns_required s.trigger rfl) fun trigger htrigger => ?_
    exact .built rfl (by simp [hcount, htrigger])

instance : Kept Comparator.State where
  injective := by
    rintro ⟨y⟩ ⟨y'⟩ h
    simpa using Datum.record.inj h
  returns := by
    intro s
    refine .record [("y", written s.y)] rfl (fun _ => rfl) (by simp) ?_
    refine .field (returns_required s.y rfl) fun y hy => ?_
    exact .built rfl (by simp [hy])

/-! ## Edges -/

instance : Kept (Edges.Last Bool) where
  injective := by
    rintro ⟨input⟩ ⟨input'⟩ h
    simpa using Datum.record.inj h
  returns := by
    intro s
    refine .record [("pre_u", written s.input)] rfl (fun _ => rfl) (by simp) ?_
    refine .field (returns_required s.input rfl) fun input hinput => ?_
    exact .built rfl (by simp [hinput])

instance : Kept (Edges.Last Int) where
  injective := by
    rintro ⟨input⟩ ⟨input'⟩ h
    simpa using Datum.record.inj h
  returns := by
    intro s
    refine .record [("pre_u", written s.input)] rfl (fun _ => rfl) (by simp) ?_
    refine .field (returns_required s.input rfl) fun input hinput => ?_
    exact .built rfl (by simp [hinput])

instance : Kept (Edges.Delayed Float) where
  injective := by
    rintro ⟨input, isFirst⟩ ⟨input', isFirst'⟩ h
    simpa using Datum.record.inj h
  returns := by
    intro s
    refine .record [("pre_u", written s.input), ("first_call", written s.isFirst)]
      rfl (fun _ => rfl) (by simp) ?_
    refine .field (returns_required s.input rfl) fun input hinput => ?_
    refine .field (returns_required s.isFirst rfl) fun isFirst hisFirst => ?_
    exact .built rfl (by simp [hinput, hisFirst])

/-! ## Triggered blocks -/

instance : Kept (Triggered.Greatest Float) where
  injective := by
    rintro ⟨value, trigger⟩ ⟨value', trigger'⟩ h
    simpa using Datum.record.inj h
  returns := by
    intro s
    refine .record [("max", written s.value), ("pre_trigger", written s.trigger)]
      rfl (fun _ => rfl) (by simp) ?_
    refine .field (returns_emptiable rfl s.value) fun value hvalue => ?_
    refine .field (returns_required s.trigger rfl) fun trigger htrigger => ?_
    exact .built rfl (by simp [hvalue, htrigger])

instance : Kept (Triggered.Total Float) where
  injective := by
    rintro ⟨sum, count, trigger⟩ ⟨sum', count', trigger'⟩ h
    simpa using Datum.record.inj h
  returns := by
    intro s
    refine .record [("sum", written s.sum), ("count", written s.count),
      ("pre_trigger", written s.trigger)] rfl (fun _ => rfl) (by simp) ?_
    refine .field (returns_required s.sum rfl) fun sum hsum => ?_
    refine .field (returns_count s.count) fun count hcount => ?_
    refine .field (returns_required s.trigger rfl) fun trigger htrigger => ?_
    exact .built rfl (by simp [hsum, hcount, htrigger])

instance : Kept (Triggered.Sample Float) where
  injective := by
    rintro ⟨value, trigger⟩ ⟨value', trigger'⟩ h
    simpa using Datum.record.inj h
  returns := by
    intro s
    refine .record [("value", written s.value), ("pre_trigger", written s.trigger)]
      rfl (fun _ => rfl) (by simp) ?_
    refine .field (returns_required s.value rfl) fun value hvalue => ?_
    refine .field (returns_required s.trigger rfl) fun trigger htrigger => ?_
    exact .built rfl (by simp [hvalue, htrigger])

/-! ## Timers, delays and holds -/

instance : Kept (Timer.State Float) where
  injective := by
    rintro ⟨since, passed⟩ ⟨since', passed'⟩ h
    simpa using Datum.record.inj h
  returns := by
    intro s
    refine .record [("entry_time", written s.since), ("passed", written s.passed)]
      rfl (fun _ => rfl) (by simp) ?_
    refine .field (returns_emptiable rfl s.since) fun since hsince => ?_
    refine .field (returns_required s.passed rfl) fun passed hpassed => ?_
    exact .built rfl (by simp [hsince, hpassed])

instance : Kept (Timer.Accumulating.State Float) where
  injective := by
    rintro ⟨total, since, passed⟩ ⟨total', since', passed'⟩ h
    simpa using Datum.record.inj h
  returns := by
    intro s
    refine .record [("accumulated", written s.total), ("entry_time", written s.since),
      ("passed", written s.passed)] rfl (fun _ => rfl) (by simp) ?_
    refine .field (returns_required s.total rfl) fun total htotal => ?_
    refine .field (returns_emptiable rfl s.since) fun since hsince => ?_
    refine .field (returns_required s.passed rfl) fun passed hpassed => ?_
    exact .built rfl (by simp [htotal, hsince, hpassed])

instance : Kept (OnDelay.State Float) where
  injective := by
    rintro ⟨y, u, due⟩ ⟨y', u', due'⟩ h
    simpa using Datum.record.inj h
  returns := by
    intro s
    refine .record [("y", written s.y), ("pre_u", written s.u), ("fire_time", written s.due)]
      rfl (fun _ => rfl) (by simp) ?_
    refine .field (returns_required s.y rfl) fun y hy => ?_
    refine .field (returns_required s.u rfl) fun u hu => ?_
    refine .field (returns_emptiable rfl s.due) fun due hdue => ?_
    exact .built rfl (by simp [hy, hu, hdue])

instance : Kept (DwellHold.State Float) where
  injective := by
    rintro ⟨y, since⟩ ⟨y', since'⟩ h
    simpa using Datum.record.inj h
  returns := by
    intro s
    refine .record [("y", written s.y), ("entry_time", written s.since)]
      rfl (fun _ => rfl) (by simp) ?_
    refine .field (returns_required s.y rfl) fun y hy => ?_
    refine .field (returns_emptiable rfl s.since) fun since hsince => ?_
    exact .built rfl (by simp [hy, hsince])

instance : Kept (StatusProof.State Float) where
  injective := by
    rintro ⟨status, setpoint, commandedAt, onSince, offSince⟩
      ⟨status', setpoint', commandedAt', onSince', offSince'⟩ h
    simpa using Datum.record.inj h
  returns := by
    intro s
    refine .record [("pre_u", written s.status), ("pre_u_set", written s.setpoint),
      ("setpoint_change_time", written s.commandedAt), ("became_true_time", written s.onSince),
      ("became_false_time", written s.offSince)] rfl (fun _ => rfl) (by simp) ?_
    refine .field (returns_optional s.status (exempt_optionBool _ _)) fun status hstatus => ?_
    refine .field (returns_required s.setpoint rfl) fun setpoint hsetpoint => ?_
    refine .field (returns_required s.commandedAt rfl) fun commandedAt hcommandedAt => ?_
    refine .field (returns_emptiable rfl s.onSince) fun onSince honSince => ?_
    refine .field (returns_emptiable rfl s.offSince) fun offSince hoffSince => ?_
    exact .built rfl (by simp [hstatus, hsetpoint, hcommandedAt, honSince, hoffSince])

instance : Kept (VariablePulse.State Float) where
  injective := by
    rintro ⟨active, ends, next, width⟩ ⟨active', ends', next', width'⟩ h
    simpa using Datum.record.inj h
  returns := by
    intro s
    refine .record [("active", written s.active), ("pulse_end_time", written s.ends),
      ("next_pulse_time", written s.next), ("sampled_width", written s.width)]
      rfl (fun _ => rfl) (by simp) ?_
    refine .field (returns_required s.active rfl) fun active hactive => ?_
    refine .field (returns_required s.ends rfl) fun ends hends => ?_
    refine .field (returns_required s.next rfl) fun next hnext => ?_
    refine .field (returns_required s.width rfl) fun width hwidth => ?_
    exact .built rfl (by simp [hactive, hends, hnext, hwidth])

instance : Kept (Stage.State Float) where
  injective := by
    rintro ⟨y, changeFrom⟩ ⟨y', changeFrom'⟩ h
    simpa using Datum.record.inj h
  returns := by
    intro s
    refine .record [("y", written s.y), ("next_change_time", written s.changeFrom)]
      rfl (fun _ => rfl) (by simp) ?_
    refine .field (returns_required s.y rfl) fun y hy => ?_
    refine .field (returns_emptiable rfl s.changeFrom) fun changeFrom hchangeFrom => ?_
    exact .built rfl (by simp [hy, hchangeFrom])

instance : Kept (SampleTrigger.State Float) where
  injective := by
    rintro ⟨last⟩ ⟨last'⟩ h
    simpa using Datum.record.inj h
  returns := by
    intro s
    refine .record [("last_trigger_time", written s.last)] rfl (fun _ => rfl) (by simp) ?_
    refine .field (returns_emptiable rfl s.last) fun last hlast => ?_
    exact .built rfl (by simp [hlast])

/-! ## Sampling -/

instance : Kept (SampleClock Float) where
  injective := by
    rintro ⟨period, next⟩ ⟨period', next'⟩ h
    simpa using Datum.record.inj h
  returns := by
    intro s
    refine .record [("period", written s.period), ("next_sample_time", written s.next)]
      rfl (fun _ => rfl) (by simp) ?_
    refine .field (returns_required s.period rfl) fun period hperiod => ?_
    refine .field (returns_required s.next rfl) fun next hnext => ?_
    exact .built rfl (by simp [hperiod, hnext])

@[simp] theorem nesting_sampleClock (c : SampleClock Float) :
    (toDatum c : Datum Float).nesting = 1 := rfl

instance : Kept (Sampling.Sampler.State Float) where
  injective := by
    rintro ⟨clock, value, started⟩ ⟨clock', value', started'⟩ h
    simpa using Datum.record.inj h
  returns := by
    intro s
    refine .record [("clock", written s.clock), ("value", written s.value),
      ("initialized", written s.started)] rfl (fun _ => rfl) (by simp) ?_
    refine .field (returns_required s.clock rfl) fun clock hclock => ?_
    refine .field (returns_required s.value rfl) fun value hvalue => ?_
    refine .field (returns_required s.started rfl) fun started hstarted => ?_
    exact .built rfl (by simp [hclock, hvalue, hstarted])

instance : Kept (Sampling.ZeroOrderHold.State Float) where
  injective := by
    rintro ⟨clock, held⟩ ⟨clock', held'⟩ h
    simpa using Datum.record.inj h
  returns := by
    intro s
    refine .record [("clock", written s.clock), ("held", written s.held)]
      rfl (fun _ => rfl) (by simp) ?_
    refine .field (returns_required s.clock rfl) fun clock hclock => ?_
    refine .field (returns_emptiable rfl s.held) fun held hheld => ?_
    exact .built rfl (by simp [hclock, hheld])

instance : Kept (Sampling.FirstOrderHold.State Float) where
  injective := by
    rintro ⟨clock, current, previous, sampledAt⟩ ⟨clock', current', previous', sampledAt'⟩ h
    simpa using Datum.record.inj h
  returns := by
    intro s
    refine .record [("clock", written s.clock), ("current", written s.current),
      ("previous", written s.previous), ("current_sample_time", written s.sampledAt)]
      rfl (fun _ => rfl) (by simp) ?_
    refine .field (returns_required s.clock rfl) fun clock hclock => ?_
    refine .field (returns_emptiable rfl s.current) fun current hcurrent => ?_
    refine .field (returns_emptiable rfl s.previous) fun previous hprevious => ?_
    refine .field (returns_required s.sampledAt rfl) fun sampledAt hsampledAt => ?_
    exact .built rfl (by simp [hclock, hcurrent, hprevious, hsampledAt])

/-! ## Dynamics -/

instance : Kept (Integrator.State Float) where
  injective := by
    rintro ⟨y, last, trigger⟩ ⟨y', last', trigger'⟩ h
    simpa using Datum.record.inj h
  returns := by
    intro s
    refine .record [("y", written s.y), ("last_time", written s.last),
      ("pre_trigger", written s.trigger)] rfl (fun _ => rfl) (by simp) ?_
    refine .field (returns_required s.y rfl) fun y hy => ?_
    refine .field (returns_emptiable rfl s.last) fun last hlast => ?_
    refine .field (returns_required s.trigger rfl) fun trigger htrigger => ?_
    exact .built rfl (by simp [hy, hlast, htrigger])

instance : Kept (Derivative.State Float) where
  injective := by
    rintro ⟨y, last⟩ ⟨y', last'⟩ h
    simpa using Datum.record.inj h
  returns := by
    intro s
    refine .record [("y", written s.y), ("previous", written s.last)]
      rfl (fun _ => rfl) (by simp) ?_
    refine .field (returns_required s.y rfl) fun y hy => ?_
    refine .field (returns_optional s.last (exempt_optionPair _ _)) fun last hlast => ?_
    exact .built rfl (by simp [hy, hlast])
  nesting := by
    intro s
    have := nesting_optionPair s.last
    show (Datum.record _).nesting ≤ 3
    simp only [Datum.nesting, Datum.fieldsNesting, nesting_float]
    omega

instance : Kept (SlewRate.State Float) where
  injective := by
    rintro ⟨y, last⟩ ⟨y', last'⟩ h
    simpa using Datum.record.inj h
  returns := by
    intro s
    refine .record [("y", written s.y), ("last_time", written s.last)]
      rfl (fun _ => rfl) (by simp) ?_
    refine .field (returns_required s.y rfl) fun y hy => ?_
    refine .field (returns_emptiable rfl s.last) fun last hlast => ?_
    exact .built rfl (by simp [hy, hlast])

instance : Kept (MovingAverage.State Float) where
  injective := by
    rintro ⟨window⟩ ⟨window'⟩ h
    simpa using Datum.record.inj h
  returns := by
    intro s
    refine .record [("window", written s.window)] rfl (fun _ => rfl) (by simp) ?_
    refine .field (returns_required s.window rfl) fun window hwindow => ?_
    exact .built rfl (by simp [hwindow])
  nesting := by
    intro s
    have := nesting_pairs s.window
    show (Datum.record _).nesting ≤ 3
    simp only [Datum.nesting, Datum.fieldsNesting]
    omega

instance : Kept (Pid.State Float) where
  injective := by
    rintro ⟨integral, error, slope, last⟩ ⟨integral', error', slope', last'⟩ h
    simpa using Datum.record.inj h
  returns := by
    intro s
    refine .record [("integral", written s.integral), ("last_error", written s.error),
      ("derivative_filtered", written s.slope), ("last_time", written s.last)]
      rfl (fun _ => rfl) (by simp) ?_
    refine .field (returns_required s.integral rfl) fun integral hintegral => ?_
    refine .field (returns_required s.error rfl) fun error herror => ?_
    refine .field (returns_required s.slope rfl) fun slope hslope => ?_
    refine .field (returns_emptiable rfl s.last) fun last hlast => ?_
    exact .built rfl (by simp [hintegral, herror, hslope, hlast])

/-! ## All blocks -/

/-- The memories of the component are read back as they were stored, or refused. -/
def Component.Lawful (c : Component Float) : Prop := @Kept c.State c.writeState c.readState

section Lawful

variable {ι σ ο : Type} [OfDatum Float ι] [OfDatum Float σ] [ToDatum Float σ] [ToDatum Float ο]
  [Kept σ]

theorem Component.lawful_mk (b : Block Float ι σ ο) : Component.Lawful ⟨b⟩ :=
  inferInstanceAs (Kept σ)

theorem Component.lawful_ofBuilt {built : Except (Fault Float) (Block Float ι σ ο)}
    {c : Component Float} (h : Component.ofBuilt built = .ok c) : c.Lawful := by
  cases built with
  | error e => cases h
  | ok b =>
    cases h
    exact lawful_mk b

end Lawful

/-- **Every block that can be built has lawful memories.** -/
theorem Design.lawful {d : Design Float} {c : Component Float} (h : d.component = .ok c) :
    c.Lawful := by
  cases d
  case switch kind => cases kind <;> (cases h; exact Component.lawful_mk _)
  case extractor kind _ => cases kind <;> exact Component.lawful_ofBuilt h
  case extractSignal kind _ _ => cases kind <;> exact Component.lawful_ofBuilt h
  case scalarReplicator kind _ => cases kind <;> exact Component.lawful_ofBuilt h
  case vectorReplicator kind _ _ => cases kind <;> exact Component.lawful_ofBuilt h
  case vectorFilter kind _ _ _ => cases kind <;> exact Component.lawful_ofBuilt h
  all_goals first
    | exact Component.lawful_ofBuilt h
    | (cases h; exact Component.lawful_mk _)

end ControlBlocks
