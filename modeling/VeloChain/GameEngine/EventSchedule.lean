import VeloChain.GameEngine.Determinism

/-! The world events of a run.
The events of a tick are added to those of the ticks before, and nothing takes them out again;
so the event manager of a world records all that its ticks have announced.
-/

namespace VeloChain

variable {F : Type}

-----------------------------------------------------------------------------------------
-- The schedule
-----------------------------------------------------------------------------------------

namespace EventManager

/-- It is day after an even number of day cycles. -/
def dayAfter (ticks : List UInt64) : Bool :=
  ticks.countP (fun tick => tick % 6000 = 0) % 2 = 0

/-- The weather is the one drawn when an interval ended last. -/
def weatherAfter (keccak256 : Bytes → B256) (seed : UInt64) (ticks : List UInt64)
    : WeatherType :=
  match (ticks.filter (fun tick => tick % 3000 = 0)).getLast? with
  | some tick => deterministicWeather keccak256 tick seed
  | none => .clear

/-- The events of a tick that comes after the given ones. -/
def announced (keccak256 : Bytes → B256) (seed : UInt64) (earlier : List UInt64)
    (tick : UInt64) : List WorldEventType :=
  (if tick % 6000 = 0 then [.dayNightTransition (!dayAfter earlier)] else [])
    ++ (if tick % 3000 = 0
          ∧ deterministicWeather keccak256 tick seed ≠ weatherAfter keccak256 seed earlier then
        [.weatherChange (deterministicWeather keccak256 tick seed)]
      else [])
    ++ (if tick % 1000 = 0 ∧ tick > 0 then [.resourceRespawn] else [])
    ++ (if tick % 5000 = 0 ∧ tick > 0 then [.enemyWave (min (tick / 5000).toUInt32 5)] else [])

/-- The events of successive ticks. -/
def schedule (F : Type) (keccak256 : Bytes → B256) (seed : UInt64) (ticks : List UInt64)
    : List (GameEvent F) :=
  ticks.zipIdx.flatMap (fun (tick, place) =>
    (announced keccak256 seed (ticks.take place) tick).map (.worldEvent · tick))

/-- The event manager that has announced what is due on the given ticks, and nothing else. -/
def scheduled (F : Type) (keccak256 : Bytes → B256) (seed : UInt64) (ticks : List UInt64)
    : EventManager F :=
  { new with
    currentEvents := schedule F keccak256 seed ticks
    isDay := dayAfter ticks
    weather := weatherAfter keccak256 seed ticks }

variable (keccak256 : Bytes → B256) (seed : UInt64) (ticks : List UInt64) (tick : UInt64)

theorem dayAfter_append
    : dayAfter (ticks ++ [tick]) = if tick % 6000 = 0 then !dayAfter ticks else dayAfter ticks := by
  unfold dayAfter
  rw [List.countP_append, List.countP_singleton]
  by_cases due : tick % 6000 = 0
  · rw [if_pos due, if_pos (by simpa using due), ← decide_not, decide_eq_decide]
    omega
  · rw [if_neg due, if_neg (by simpa using due), Nat.add_zero]

theorem weatherAfter_append
    : weatherAfter keccak256 seed (ticks ++ [tick])
      = if tick % 3000 = 0 then deterministicWeather keccak256 tick seed
        else weatherAfter keccak256 seed ticks := by
  unfold weatherAfter
  rw [List.filter_append]
  by_cases due : tick % 3000 = 0
  · simp [due]
  · simp [due]

theorem schedule_append
    : schedule F keccak256 seed (ticks ++ [tick])
      = schedule F keccak256 seed ticks
        ++ (announced keccak256 seed ticks tick).map (.worldEvent · tick) := by
  unfold schedule
  rw [List.zipIdx_append, List.flatMap_append]
  congr 1
  · apply List.flatMap_congr
    rintro ⟨earlier, place⟩ member
    have early : place < ticks.length := by
      simpa using List.snd_lt_of_mem_zipIdx member
    simp only [List.take_append_of_le_length early.le]
  · simp

/-- Emit world events of one tick. -/
def emitAll (events : List WorldEventType) (tick : UInt64) (manager : EventManager F)
    : EventManager F :=
  { manager with
    currentEvents := manager.currentEvents ++ events.map (.worldEvent · tick) }

theorem tickDay_scheduled
    : (scheduled F keccak256 seed ticks).tickDay tick
      = { scheduled F keccak256 seed ticks with isDay := dayAfter (ticks ++ [tick]) }.emitAll
          (if tick % 6000 = 0 then [.dayNightTransition (!dayAfter ticks)] else []) tick := by
  rw [dayAfter_append]
  by_cases due : tick % 6000 = 0
  · simp [tickDay, scheduled, new, due, emit, emitAll]
  · simp [tickDay, scheduled, new, due, emitAll]

theorem tickWeather_eq {manager : EventManager F} (interval : manager.weatherIntervalTicks = 3000)
    (weather : manager.weather = weatherAfter keccak256 seed ticks)
    : manager.tickWeather keccak256 tick seed
      = { manager with weather := weatherAfter keccak256 seed (ticks ++ [tick]) }.emitAll
          (if tick % 3000 = 0
              ∧ deterministicWeather keccak256 tick seed ≠ weatherAfter keccak256 seed ticks then
            [.weatherChange (deterministicWeather keccak256 tick seed)]
          else []) tick := by
  obtain ⟨events, items, dropId, day, _, cycle, _⟩ := manager
  subst interval weather
  rw [weatherAfter_append, tickWeather]
  by_cases due : tick % 3000 = 0
  · by_cases same : deterministicWeather keccak256 tick seed = weatherAfter keccak256 seed ticks
    · simp [due, same, emitAll]
    · simp [due, same, emit, emitAll]
  · simp [due, emitAll]

theorem tickResources_eq (manager : EventManager F)
    : manager.tickResources tick
      = manager.emitAll (if tick % 1000 = 0 ∧ tick > 0 then [.resourceRespawn] else []) tick := by
  unfold tickResources
  split <;> simp [emit, emitAll]

theorem tickEnemyWave_eq (manager : EventManager F)
    : manager.tickEnemyWave tick
      = manager.emitAll (if tick % 5000 = 0 ∧ tick > 0 then
          [.enemyWave (min (tick / 5000).toUInt32 5)] else []) tick := by
  unfold tickEnemyWave
  split <;> simp [emit, emitAll]

theorem tickGroundItems_of_none {manager : EventManager F} (none : manager.groundItems = [])
    : manager.tickGroundItems tick = manager := by
  simp only [tickGroundItems, none, List.filter_nil]
  rw [← none]

/-- The events of one tick join those of the ticks before. -/
theorem tickPeriodicEvents_scheduled
    : (scheduled F keccak256 seed ticks).tickPeriodicEvents keccak256 tick seed
      = scheduled F keccak256 seed (ticks ++ [tick]) := by
  unfold tickPeriodicEvents
  rw [tickDay_scheduled, tickWeather_eq keccak256 seed ticks tick rfl rfl, tickResources_eq,
    tickEnemyWave_eq, tickGroundItems_of_none tick rfl]
  unfold scheduled
  rw [schedule_append]
  simp only [emitAll, announced, List.map_append, List.append_assoc]

end EventManager

-----------------------------------------------------------------------------------------
-- Runs of a world
-----------------------------------------------------------------------------------------

namespace GameWorld

variable [F32 F] (crypto : Crypto) (codec : EcsCodec F)

/-- One more tick; its number is noted if it succeeds. -/
def passTick (before : List UInt64 × GameWorld F)
    (turn : TickOrder F × List (String × GameAction)) : List UInt64 × GameWorld F :=
  match tick crypto codec turn.1 turn.2 before.2 with
  | (.ok _, world) => (before.1 ++ [world.currentTick], world)
  | (.error _, world) => (before.1, world)

/-- Tick after tick: the numbers of those that succeed, and the world after all of them. -/
def runTicks (turns : List (TickOrder F × List (String × GameAction))) (world : GameWorld F)
    : List UInt64 × GameWorld F :=
  turns.foldl (passTick crypto codec) ([], world)

/-- After some ticks, the event manager has announced what was due on those that succeeded. -/
structure OnSchedule (seed : UInt64) (count : Nat) (passed : List UInt64) (world : GameWorld F)
    : Prop where
  eventManager : world.eventManager = .scheduled F crypto.keccak256 seed passed
  currentTick : world.currentTick = UInt64.ofNat count
  passed : passed.Sublist ((List.range count).map (fun k => UInt64.ofNat (k + 1)))
  seed : world.seed = seed

variable {crypto codec}

theorem OnSchedule.passTick {seed : UInt64} {count : Nat}
    {before : List UInt64 × GameWorld F} (on : OnSchedule crypto seed count before.1 before.2)
    (turn : TickOrder F × List (String × GameAction))
    : OnSchedule crypto seed (count + 1) (passTick crypto codec before turn).1
        (passTick crypto codec before turn).2 := by
  have events := @eventManager_tick F _ crypto codec turn.1 turn.2 before.2
  have counts := @currentTick_tick F _ crypto codec turn.1 turn.2 before.2
  have seeds := @seed_tick F _ crypto codec turn.1 turn.2 before.2
  have next : before.2.currentTick + 1 = UInt64.ofNat (count + 1) := by
    rw [on.currentTick, UInt64.ofNat_add]
    rfl
  have numbers : (List.range (count + 1)).map (fun k => UInt64.ofNat (k + 1))
      = (List.range count).map (fun k => UInt64.ofNat (k + 1)) ++ [UInt64.ofNat (count + 1)] := by
    rw [List.range_succ, List.map_append]
    rfl
  unfold GameWorld.passTick
  rw [next] at events counts
  rw [on.seed] at events seeds
  split
  next root world ticked =>
    rw [ticked] at events counts seeds
    refine ⟨?_, counts, ?_, seeds⟩
    · rw [counts, ← EventManager.tickPeriodicEvents_scheduled, ← on.eventManager]
      exact events
    · rw [counts, numbers]
      exact on.passed.append (.refl _)
  next error world ticked =>
    rw [ticked] at events counts seeds
    refine ⟨events.trans on.eventManager, counts, ?_, seeds⟩
    rw [numbers]
    exact on.passed.trans (List.sublist_append_left _ _)

theorem OnSchedule.runTicks (turns : List (TickOrder F × List (String × GameAction)))
    {seed : UInt64} {world : GameWorld F} (on : OnSchedule crypto seed 0 [] world)
    : OnSchedule crypto seed turns.length (runTicks crypto codec turns world).1
        (runTicks crypto codec turns world).2 := by
  unfold GameWorld.runTicks
  induction turns using List.reverseRecOn with
  | nil => exact on
  | append_singleton turns turn ih =>
      rw [List.foldl_append, List.length_append]
      exact ih.passTick turn

/-- Whatever the players do, and in whatever orders the world is walked, its event manager has
announced exactly what is due on the ticks that succeeded. All events are still there: none is
ever drained, and no item lies on the ground.
-/
theorem eventManager_runTicks (turns : List (TickOrder F × List (String × GameAction)))
    (seed : UInt64)
    : let (passed, world) := runTicks crypto codec turns (new crypto.keccak256 seed)
      world.eventManager = .scheduled F crypto.keccak256 seed passed
      ∧ world.currentTick = UInt64.ofNat turns.length
      ∧ passed.Sublist ((List.range turns.length).map (fun k => UInt64.ofNat (k + 1))) :=
  have on : OnSchedule crypto seed 0 [] (new crypto.keccak256 seed : GameWorld F) :=
    ⟨rfl, rfl, .slnil, rfl⟩
  ⟨(on.runTicks turns).eventManager, (on.runTicks turns).currentTick, (on.runTicks turns).passed⟩

end GameWorld

end VeloChain
