import Mathlib.Tactic

set_option autoImplicit false

namespace SubConverter.Utils

/-! The permit governor of the resource controller. -/

def governorDecreaseCpuPermits (current : Nat) : Nat :=
  let current := max 1 current
  if current = 1 then 1 else max 1 (current - max 1 (current / 4))

def governorRecoverCpuPermits (current maximum : Nat) : Nat := min (max 1 maximum) ((max 1 current + 1) % 2 ^ 64)

structure ResourceGovernorState where
  currentPermits : Nat := 1
  stableSamples : Nat := 0
  idleSamples : Nat := 0
deriving DecidableEq, Repr

structure ResourceGovernorInput where
  maximumPermits : Nat := 1
  forceMax : Bool := false
  telemetryValid : Bool := true
  memoryPressure : Bool := false
  memoryEvent : Bool := false
  active : Bool := false
  fits : maximumPermits < 2 ^ 64 := by decide
deriving DecidableEq, Repr

structure ResourceGovernorDecision where
  permits : Nat
  state : String
  reason : String
  pressureFallback : Bool
deriving DecidableEq, Repr

-- `++` on a counter of 32 bits
def succ32 (n : Nat) : Nat := (n + 1) % 2 ^ 32

-- `std::clamp` to one and the maximum
def clampPermits (current maximum : Nat) : Nat := if current < 1 then 1 else if maximum < current then maximum else current

def governorStep (state : ResourceGovernorState) (input : ResourceGovernorInput) :
    ResourceGovernorState × ResourceGovernorDecision :=
  let maximum := max 1 input.maximumPermits
  let current := clampPermits state.currentPermits maximum
  if !input.telemetryValid then
    let permits := governorDecreaseCpuPermits current
    (⟨permits, 0, 0⟩, ⟨permits, "pressure_guarded", "telemetry_unavailable", true⟩)
  else if input.memoryPressure || input.memoryEvent then
    let permits := governorDecreaseCpuPermits current
    (⟨permits, 0, 0⟩,
      ⟨permits, "pressure_guarded", if input.memoryEvent then "memory_event" else "memory_pressure", true⟩)
  else if current < maximum then
    if input.forceMax || input.active then
      let stable := succ32 state.stableSamples
      let recovers := 2 ≤ stable
      let permits := if recovers then governorRecoverCpuPermits current maximum else current
      (⟨permits, if recovers then 0 else stable, 0⟩,
        ⟨permits, "recovering", if input.active then "stable_throughput" else "force_max_idle_restore", false⟩)
    else
      let idle := succ32 state.idleSamples
      let reduces := 30 ≤ idle ∧ 1 < current
      let permits := if reduces then current - 1 else current
      (⟨permits, 0, if reduces then 0 else idle⟩, ⟨permits, "idle_reduced", "adaptive_idle", false⟩)
  else
    let idle := succ32 state.idleSamples
    -- The counter only moves when the first two tests of the condition hold.
    if !input.forceMax && !input.active then
      let reduces := 30 ≤ idle ∧ 1 < current
      if reduces then (⟨current - 1, 0, 0⟩, ⟨current - 1, "idle_reduced", "adaptive_idle", false⟩)
      else (⟨current, 0, idle⟩, ⟨current, "max_ready", "hardware_limit_idle", false⟩)
    else
      (⟨current, 0, if input.active then 0 else state.idleSamples⟩,
        ⟨current, "max_ready", if input.active then "hardware_limit_active" else "hardware_limit_idle", false⟩)

namespace ResourceGovernor

section Steps

def Guarded (input : ResourceGovernorInput) : Prop :=
  input.telemetryValid = false ∨ input.memoryPressure ∨ input.memoryEvent

def Driven (input : ResourceGovernorInput) : Prop := ¬Guarded input ∧ (input.active ∨ input.forceMax)

def Idle (input : ResourceGovernorInput) : Prop := ¬Guarded input ∧ ¬(input.active ∨ input.forceMax)

instance : DecidablePred Guarded := fun _ => inferInstanceAs (Decidable (_ ∨ _ ∨ _))

instance : DecidablePred Driven := fun _ => inferInstanceAs (Decidable (_ ∧ _))

instance : DecidablePred Idle := fun _ => inferInstanceAs (Decidable (_ ∧ _))

def limit (input : ResourceGovernorInput) : Nat := max 1 input.maximumPermits

/-- The permits of a state; a count of zero stands for one. -/
def permits (state : ResourceGovernorState) : Nat := max 1 state.currentPermits

variable {state : ResourceGovernorState} {input : ResourceGovernorInput}

theorem limit_pos (input : ResourceGovernorInput) : 1 ≤ limit input := Nat.le_max_left _ _

theorem clampPermits_eq (state : ResourceGovernorState) (input : ResourceGovernorInput) :
    clampPermits state.currentPermits (limit input) = min (permits state) (limit input) := by
  have positive := limit_pos input
  rw [clampPermits, permits]
  split_ifs <;> omega

theorem limit_lt (input : ResourceGovernorInput) : limit input < 2 ^ 64 := by
  have := input.fits
  rw [limit]
  omega

theorem decrease_spec (current : Nat) (positive : 1 ≤ current) :
    1 ≤ governorDecreaseCpuPermits current ∧ governorDecreaseCpuPermits current ≤ current ∧
      (current ≠ 1 → governorDecreaseCpuPermits current + max 1 (current / 4) ≤ current) := by
  simp only [governorDecreaseCpuPermits]
  split <;> omega

theorem recover_spec {current maximum : Nat} (positive : 1 ≤ current) (below : current < maximum) (fits : maximum < 2 ^ 64) :
    governorRecoverCpuPermits current maximum = current + 1 := by
  rw [governorRecoverCpuPermits, Nat.mod_eq_of_lt (by omega)]
  omega

theorem governorStep_cases (state : ResourceGovernorState) (input : ResourceGovernorInput) :
    let current := min (permits state) (limit input)
    let next := (governorStep state input).1
    let idle := succ32 state.idleSamples
    let stable := succ32 state.stableSamples
    (Guarded input ∧ next = ⟨governorDecreaseCpuPermits current, 0, 0⟩) ∨
    (Driven input ∧ current < limit input ∧ 2 ≤ stable ∧ next = ⟨current + 1, 0, 0⟩) ∨
    (Driven input ∧ current < limit input ∧ stable < 2 ∧ next = ⟨current, stable, 0⟩) ∨
    (Driven input ∧ current = limit input ∧ ∃ kept ≤ state.idleSamples, next = ⟨current, 0, kept⟩) ∨
    (Idle input ∧ 30 ≤ idle ∧ 1 < current ∧ next = ⟨current - 1, 0, 0⟩) ∨
    (Idle input ∧ (idle < 30 ∨ current = 1) ∧ next = ⟨current, 0, idle⟩) := by
  have clamped := clampPermits_eq state input
  have inside : 1 ≤ min (permits state) (limit input) ∧ min (permits state) (limit input) ≤ limit input := by
    have := limit_pos input
    simp only [permits]
    omega
  simp only [governorStep]
  rw [← limit, clamped]
  generalize min (permits state) (limit input) = current at inside
  have positive := inside.1
  cases valid : input.telemetryValid with
  | false => exact .inl ⟨.inl valid, rfl⟩
  | true =>
    by_cases pressed : input.memoryPressure || input.memoryEvent
    · refine .inl ⟨.inr (by simpa using pressed), ?_⟩
      simp [pressed]
    · have open' : ¬Guarded input := by simpa [Guarded, valid] using pressed
      by_cases driven : input.forceMax || input.active
      · have kind : Driven input := ⟨open', by simpa [or_comm] using driven⟩
        by_cases below : current < limit input
        · by_cases recovers : 2 ≤ succ32 state.stableSamples
          · refine .inr (.inl ⟨kind, below, recovers, ?_⟩)
            simp [pressed, driven, below, recovers, recover_spec positive below (limit_lt input)]
          · refine .inr (.inr (.inl ⟨kind, below, by omega, ?_⟩))
            simp [pressed, driven, below, recovers]
        · refine .inr (.inr (.inr (.inl ⟨kind, by omega, ?_⟩)))
          have busy : (!input.forceMax && !input.active) = false := by rw [← Bool.not_or, driven, Bool.not_true]
          refine ⟨if input.active then 0 else state.idleSamples, ?_, ?_⟩
          · split <;> omega
          · simp [pressed, below, busy]
      · have kind : Idle input := ⟨open', by simpa [or_comm] using driven⟩
        have rests : (!input.forceMax && !input.active) = true := by
          rw [← Bool.not_or, (Bool.not_eq_true _).mp driven, Bool.not_false]
        by_cases reduces : 30 ≤ succ32 state.idleSamples ∧ 1 < current
        · refine .inr (.inr (.inr (.inr (.inl ⟨kind, reduces.1, reduces.2, ?_⟩))))
          by_cases below : current < limit input <;> simp [pressed, driven, below, rests, reduces]
        · refine .inr (.inr (.inr (.inr (.inr ⟨kind, by omega, ?_⟩))))
          by_cases below : current < limit input <;> simp only [pressed, driven, below, rests, reduces] <;> simp

theorem governorStep_permits (state : ResourceGovernorState) (input : ResourceGovernorInput) :
    (governorStep state input).2.permits = (governorStep state input).1.currentPermits := by
  simp only [governorStep]
  split
  · rfl
  · split
    · rfl
    · split
      · split <;> rfl
      · split
        · split <;> rfl
        · rfl

theorem governorStep_bounds (state : ResourceGovernorState) (input : ResourceGovernorInput) :
    1 ≤ (governorStep state input).1.currentPermits ∧ (governorStep state input).1.currentPermits ≤ limit input := by
  have inside : 1 ≤ min (permits state) (limit input) := by
    have := limit_pos input
    simp only [permits]
    omega
  have decrease := decrease_spec _ inside
  rcases governorStep_cases state input with ⟨-, next⟩ | ⟨-, below, -, next⟩ | ⟨-, below, -, next⟩ | ⟨-, full, _, -, next⟩ |
    ⟨-, -, many, next⟩ | ⟨-, -, next⟩ <;> rw [next] <;> dsimp only <;> omega

theorem guarded_lowers (guarded : Guarded input) :
    (governorStep state input).1.currentPermits ≤ permits state ∧
      (permits state ≠ 1 → (governorStep state input).1.currentPermits + max 1 (permits state / 4) ≤ permits state) := by
  have inside : 1 ≤ min (permits state) (limit input) := by
    have := limit_pos input
    simp only [permits]
    omega
  have decrease := decrease_spec _ inside
  rcases governorStep_cases state input with ⟨-, next⟩ | ⟨driven, -⟩ | ⟨driven, -⟩ | ⟨driven, -⟩ | ⟨idle, -⟩ | ⟨idle, -⟩
  · rw [next]
    dsimp only
    omega
  · exact absurd guarded driven.1
  · exact absurd guarded driven.1
  · exact absurd guarded driven.1
  · exact absurd guarded idle.1
  · exact absurd guarded idle.1

end Steps

section Runs

def start (permits : Nat) : ResourceGovernorState := { currentPermits := permits }

def governorRun (state : ResourceGovernorState) (inputs : List ResourceGovernorInput) : ResourceGovernorState :=
  inputs.foldl (fun state input => (governorStep state input).1) state

variable {state : ResourceGovernorState} {input : ResourceGovernorInput} {inputs : List ResourceGovernorInput}

theorem governorRun_concat (state : ResourceGovernorState) (inputs : List ResourceGovernorInput)
    (last : ResourceGovernorInput) :
    governorRun state (inputs ++ [last]) = (governorStep (governorRun state inputs) last).1 := by
  rw [governorRun, List.foldl_append]
  rfl

theorem stable_last (initial : Nat) (inputs : List ResourceGovernorInput) :
    (governorRun (start initial) inputs).stableSamples = 0 ∨
      ((governorRun (start initial) inputs).stableSamples = 1 ∧ ∃ earlier last, inputs = earlier ++ [last] ∧
        Driven last ∧ permits (governorRun (start initial) earlier) < limit last) := by
  rcases List.eq_nil_or_concat inputs with rfl | ⟨earlier, last, rfl⟩
  · exact .inl rfl
  · rw [List.concat_eq_append, governorRun_concat]
    rcases governorStep_cases (governorRun (start initial) earlier) last with ⟨-, next⟩ | ⟨-, -, -, next⟩ |
      ⟨driven, below, few, next⟩ | ⟨-, -, _, -, next⟩ | ⟨-, -, -, next⟩ | ⟨-, -, next⟩
    · exact .inl (by rw [next])
    · exact .inl (by rw [next])
    · rw [next]
      dsimp only
      have counted : succ32 (governorRun (start initial) earlier).stableSamples = 0 ∨
          succ32 (governorRun (start initial) earlier).stableSamples = 1 := by omega
      rcases counted with none' | one
      · exact .inl none'
      · exact .inr ⟨one, earlier, last, rfl, driven, by omega⟩
    · exact .inl (by rw [next])
    · exact .inl (by rw [next])
    · exact .inl (by rw [next])

theorem rise_spec (rises : permits state < (governorStep state input).1.currentPermits) :
    (governorStep state input).1.currentPermits = permits state + 1 ∧ Driven input ∧ permits state < limit input ∧
      2 ≤ succ32 state.stableSamples := by
  have inside : 1 ≤ min (permits state) (limit input) := by
    have := limit_pos input
    simp only [permits]
    omega
  have decrease := decrease_spec _ inside
  rcases governorStep_cases state input with ⟨-, next⟩ | ⟨driven, below, many, next⟩ | ⟨-, below, -, next⟩ |
    ⟨-, full, _, -, next⟩ | ⟨-, -, many, next⟩ | ⟨-, -, next⟩ <;> rw [next] at rises ⊢ <;> dsimp only at rises ⊢
  · omega
  · exact ⟨by omega, driven, by omega, many⟩
  · omega
  · omega
  · omega
  · omega

def deficit (maximum : Nat) (state : ResourceGovernorState) : Nat := 2 * (maximum - permits state) - state.stableSamples

theorem driven_step (driven : Driven input) (few : state.stableSamples ≤ 1) :
    (governorStep state input).1.stableSamples ≤ 1 ∧
      permits (governorStep state input).1 ≤ limit input ∧
      deficit (limit input) (governorStep state input).1 ≤ deficit (limit input) state - 1 := by
  have counted : succ32 state.stableSamples = state.stableSamples + 1 := Nat.mod_eq_of_lt (by omega)
  have positive := limit_pos input
  have one : 1 ≤ permits state := Nat.le_max_left _ _
  simp only [deficit]
  rcases governorStep_cases state input with ⟨guarded, -⟩ | ⟨-, below, many, next⟩ | ⟨-, below, short, next⟩ |
    ⟨-, full, _, -, next⟩ | ⟨idle, -⟩ | ⟨idle, -⟩
  · exact absurd guarded driven.1
  · rw [next]
    simp only [permits] at *
    omega
  · rw [next]
    simp only [permits] at *
    omega
  · rw [next]
    simp only [permits] at *
    omega
  · exact absurd driven.2 idle.2
  · exact absurd driven.2 idle.2

theorem driven_run (maximum : Nat) (steady : ∀ input ∈ inputs, Driven input ∧ limit input = maximum)
    (few : state.stableSamples ≤ 1) :
    (governorRun state inputs).stableSamples ≤ 1 ∧ (inputs ≠ [] → permits (governorRun state inputs) ≤ maximum) ∧
      deficit maximum (governorRun state inputs) ≤ deficit maximum state - inputs.length := by
  induction inputs generalizing state with
  | nil => exact ⟨few, fun other => absurd rfl other, by simp [governorRun]⟩
  | cons input rest ih =>
    obtain ⟨driven, rfl⟩ := steady input List.mem_cons_self
    obtain ⟨next, inside, nearer⟩ := driven_step driven few
    obtain ⟨few', inside', nearer'⟩ := ih (fun other there => steady other (List.mem_cons_of_mem _ there)) next
    refine ⟨few', fun _ => ?_, ?_⟩
    · cases rest with
      | nil => exact inside
      | cons => exact inside' (List.cons_ne_nil _ _)
    · rw [List.length_cons]
      change deficit (limit input) (governorRun (governorStep state input).1 rest) ≤ _
      omega

theorem driven_reaches (maximum : Nat) (steady : ∀ input ∈ inputs, Driven input ∧ input.maximumPermits = maximum)
    (few : state.stableSamples ≤ 1) (enough : 2 * (max 1 maximum - permits state) ≤ inputs.length)
    (present : permits state ≤ max 1 maximum ∨ inputs ≠ []) : permits (governorRun state inputs) = max 1 maximum := by
  have limits : ∀ input ∈ inputs, Driven input ∧ limit input = max 1 maximum := fun input there =>
    ⟨(steady input there).1, by rw [limit, (steady input there).2]⟩
  obtain ⟨few', inside, nearer⟩ := driven_run (max 1 maximum) limits few
  by_cases empty : inputs = []
  · subst empty
    have below : permits state ≤ max 1 maximum := by simpa using present
    rw [List.length_nil] at enough
    change permits state = max 1 maximum
    omega
  · have inside := inside empty
    simp only [deficit] at nearer
    omega

def idleReductions : ResourceGovernorState → List ResourceGovernorInput → Nat
  | _, [] => 0
  | state, input :: rest =>
    (if Idle input ∧ (governorStep state input).1.currentPermits < min (permits state) (limit input) then 1 else 0) +
      idleReductions (governorStep state input).1 rest

theorem idle_step (state : ResourceGovernorState) (input : ResourceGovernorInput) :
    30 * (if Idle input ∧ (governorStep state input).1.currentPermits < min (permits state) (limit input) then 1 else 0) +
      (governorStep state input).1.idleSamples ≤ state.idleSamples + if Idle input then 1 else 0 := by
  have counted : succ32 state.idleSamples ≤ state.idleSamples + 1 := Nat.mod_le _ _
  rcases governorStep_cases state input with ⟨guarded, next⟩ | ⟨driven, -, -, next⟩ | ⟨driven, -, -, next⟩ |
    ⟨driven, -, _, kept, next⟩ | ⟨idle, many, -, next⟩ | ⟨idle, -, next⟩
  · have other : ¬Idle input := fun idle => idle.1 guarded
    simp [other, next]
  · have other : ¬Idle input := fun idle => idle.2 driven.2
    simp [other, next]
  · have other : ¬Idle input := fun idle => idle.2 driven.2
    simp [other, next]
  · have other : ¬Idle input := fun idle => idle.2 driven.2
    simpa [other, next] using kept
  · rw [next, if_pos idle]
    split <;> simp only <;> omega
  · rw [next, if_pos idle, if_neg (by simp)]
    simp only
    omega

theorem idle_run (state : ResourceGovernorState) (inputs : List ResourceGovernorInput) :
    30 * idleReductions state inputs ≤ state.idleSamples + inputs.countP (Idle ·) := by
  induction inputs generalizing state with
  | nil => simp [idleReductions]
  | cons input rest ih =>
    have step := idle_step state input
    have later := ih (governorStep state input).1
    rw [idleReductions, List.countP_cons]
    simp only [decide_eq_true_eq]
    omega

theorem zero_lifted :
    ¬∀ (initial : Nat) (inputs : List ResourceGovernorInput) (input : ResourceGovernorInput), Guarded input →
      (governorStep (governorRun (start initial) inputs) input).1.currentPermits ≤
        (governorRun (start initial) inputs).currentPermits := by
  intro cautious
  have raised := cautious 0 [] { telemetryValid := false } (by decide)
  revert raised
  decide

theorem governor_bounded_cautious_live (initial : Nat) (inputs : List ResourceGovernorInput) :
    (∀ input,
      let state := governorRun (start initial) inputs
      let next := (governorStep state input).1
      (governorStep state input).2.permits = next.currentPermits ∧
        1 ≤ next.currentPermits ∧ next.currentPermits ≤ max 1 input.maximumPermits ∧
        (Guarded input → next.currentPermits ≤ permits state ∧
          (permits state ≠ 1 → next.currentPermits + max 1 (permits state / 4) ≤ permits state)) ∧
        (permits state < next.currentPermits →
          next.currentPermits = permits state + 1 ∧ Driven input ∧ permits state < max 1 input.maximumPermits ∧
            ∃ earlier last, inputs = earlier ++ [last] ∧ Driven last ∧
              permits (governorRun (start initial) earlier) < max 1 last.maximumPermits)) ∧
    (∀ (maximum : Nat) (samples : List ResourceGovernorInput),
      let state := governorRun (start initial) inputs
      (∀ sample ∈ samples, Driven sample ∧ sample.maximumPermits = maximum) →
        2 * (max 1 maximum - permits state) ≤ samples.length → permits state ≤ max 1 maximum ∨ samples ≠ [] →
          permits (governorRun state samples) = max 1 maximum) ∧
    idleReductions (start initial) inputs ≤ inputs.countP (Idle ·) / 30 := by
  have stable := stable_last initial inputs
  refine ⟨fun input => ⟨governorStep_permits _ input, (governorStep_bounds _ input).1, (governorStep_bounds _ input).2,
    guarded_lowers, fun rises => ?_⟩, ?_, ?_⟩
  · obtain ⟨one, driven, below, many⟩ := rise_spec rises
    refine ⟨one, driven, below, ?_⟩
    rcases stable with none' | ⟨-, before⟩
    · rw [none'] at many
      exact absurd many (by decide)
    · exact before
  · intro maximum samples state steady enough present
    have few : (governorRun (start initial) inputs).stableSamples ≤ 1 := by
      rcases stable with none' | ⟨one, -⟩ <;> omega
    exact driven_reaches maximum steady few enough present
  · have reduced := idle_run (start initial) inputs
    simp only [start] at reduced ⊢
    omega

end Runs

end ResourceGovernor

end SubConverter.Utils
