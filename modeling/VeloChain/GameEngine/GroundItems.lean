import Mathlib.Data.List.Perm.Basic
import VeloChain.GameEngine.Events
import VeloChain.Lib.CallTrace

/-! Items on the ground: dropped, picked up and removed when they expire.
What has happened to each item is read off the calls made so far.
-/

namespace VeloChain

variable {F : Type}

namespace EventManager

/-- Drop an item on the ground. -/
def dropItem (itemId quantity : UInt32) (position : F × F × F) (tick : UInt64)
    (manager : EventManager F) : UInt64 × EventManager F :=
  let dropId := manager.nextDropId
  let item :=
    { dropId, itemId, quantity, position, droppedAt := tick, despawnTicks := 600 }
  (dropId,
    { manager with
      nextDropId := manager.nextDropId + 1
      groundItems := manager.groundItems ++ [item] }.emit
      (.itemDropped position itemId quantity dropId))

/-- Pick up the first item whose position passes a test. -/
def pickupWhere (entityId : EntityId) (near : F × F × F → Bool) (manager : EventManager F)
    : Option (Option (UInt32 × UInt32) × EventManager F) :=
  match manager.groundItems.findIdx? (fun item => near item.position) with
  | none => some (none, manager)
  | some idx => do
      let item ← manager.groundItems[idx]?
      some
        (some (item.itemId, item.quantity),
          { manager with groundItems := manager.groundItems.eraseIdx idx }.emit
            (.itemPickedUp entityId item.itemId item.quantity))

/-- A position is in range of another one, on the ground. -/
def inRange [F32 F] (position : F × F × F) (pickupRange : F) (itemPosition : F × F × F) : Bool :=
  let rangeSq := pickupRange * pickupRange
  let dx := itemPosition.1 - position.1
  let dy := itemPosition.2.1 - position.2.1
  F32.le (dx * dx + dy * dy) rangeSq

/-- Try to pick up a ground item near a position. -/
def tryPickup [F32 F] (entityId : EntityId) (position : F × F × F) (pickupRange : F)
    (manager : EventManager F) : Option (Option (UInt32 × UInt32) × EventManager F) :=
  manager.pickupWhere entityId (inRange position pickupRange)

end EventManager

/-- The operations on ground items, pickups with any test of positions. -/
inductive GroundOp (F : Type)
  | dropItem (itemId quantity : UInt32) (position : F × F × F) (tick : UInt64)
  | tryPickup (entityId : EntityId) (near : F × F × F → Bool)
  | tickPeriodicEvents (tick seed : UInt64)

/-- What they return. -/
inductive GroundReply
  | dropped (dropId : UInt64)
  | pickedUp (item : Option (UInt32 × UInt32))
  | ticked
  deriving DecidableEq

namespace EventManager

variable (keccak256 : Bytes → B256)

/-- One operation. -/
def call (op : GroundOp F) (manager : EventManager F)
    : Option (GroundReply × EventManager F) :=
  match op with
  | .dropItem itemId quantity position tick =>
      let (dropId, manager) := manager.dropItem itemId quantity position tick
      some (.dropped dropId, manager)
  | .tryPickup entityId near =>
      (manager.pickupWhere entityId near).map (fun out => (.pickedUp out.1, out.2))
  | .tickPeriodicEvents tick seed =>
      some (.ticked, manager.tickPeriodicEvents keccak256 tick seed)

end EventManager

-----------------------------------------------------------------------------------------
-- What has happened to the items
-----------------------------------------------------------------------------------------

/-- A call on ground items that has returned. -/
abbrev GroundTurn (F : Type) := ReturnedCall (EventManager F) (GroundOp F) GroundReply

/-- The time of the item on the ground is over, if it has one; its age saturates at zero. -/
def GroundItem.isExpired (tick : UInt64) (item : GroundItem F) : Bool :=
  decide (0 < item.despawnTicks.toNat)
  && decide (item.despawnTicks.toNat ≤ tick.toNat - item.droppedAt.toNat)

namespace GroundTurn

/-- The item a call has dropped. -/
def dropped (turn : GroundTurn F) : List (GroundItem F) :=
  match turn.op, turn.reply with
  | .dropItem itemId quantity position tick, .dropped dropId =>
      [{ dropId, itemId, quantity, position, droppedAt := tick, despawnTicks := 600 }]
  | _, _ => []

/-- The items that lay on the ground before a call and do not after it. -/
def removed (turn : GroundTurn F) : List (GroundItem F) :=
  turn.before.groundItems.filter
    (fun item => item.dropId ∉ turn.after.groundItems.map GroundItem.dropId)

/-- The items a pickup has removed. -/
def pickedUp (turn : GroundTurn F) : List (GroundItem F) :=
  match turn.op with
  | .tryPickup _ _ => turn.removed
  | _ => []

/-- The items on the ground whose time is over at a tick. -/
def expired (turn : GroundTurn F) : List (GroundItem F) :=
  match turn.op with
  | .tickPeriodicEvents tick _ => turn.before.groundItems.filter (GroundItem.isExpired tick)
  | _ => []

end GroundTurn

/-- The items picked up, those expired and those on the ground are the items dropped, which are
numbered from one on.
-/
structure EventManager.Conserved (past : List (GroundTurn F)) (manager : EventManager F)
    : Prop where
  accounted
    : (past.flatMap GroundTurn.dropped).length < 2 ^ 64 →
        (past.flatMap GroundTurn.pickedUp ++ past.flatMap GroundTurn.expired
            ++ manager.groundItems).Perm
          (past.flatMap GroundTurn.dropped)
  numbered
    : (past.flatMap GroundTurn.dropped).map GroundItem.dropId
      = (List.range (past.flatMap GroundTurn.dropped).length).map
          (fun number => UInt64.ofNat (number + 1))
  next
    : manager.nextDropId = UInt64.ofNat ((past.flatMap GroundTurn.dropped).length + 1)

namespace EventManager

variable {keccak256 : Bytes → B256} {manager after : EventManager F}
  {past : List (GroundTurn F)} {turn : GroundTurn F}

/-- A tick removes items and leaves the counter. -/
theorem tickPeriodicEvents_groundItems (keccak256 : Bytes → B256) (tick seed : UInt64)
    (manager : EventManager F)
    : (manager.tickPeriodicEvents keccak256 tick seed).groundItems
          = manager.groundItems.filter
              (fun item =>
                item.despawnTicks == 0
                || decide (tick.toNat - item.droppedAt.toNat < item.despawnTicks.toNat))
      ∧ (manager.tickPeriodicEvents keccak256 tick seed).nextDropId = manager.nextDropId := by
  have day (manager : EventManager F)
      : (manager.tickDay tick).groundItems = manager.groundItems
        ∧ (manager.tickDay tick).nextDropId = manager.nextDropId := by
    unfold tickDay
    split <;> exact ⟨rfl, rfl⟩
  have weather (manager : EventManager F)
      : (manager.tickWeather keccak256 tick seed).groundItems = manager.groundItems
        ∧ (manager.tickWeather keccak256 tick seed).nextDropId = manager.nextDropId := by
    unfold tickWeather
    simp only
    split
    next => split <;> exact ⟨rfl, rfl⟩
    next => exact ⟨rfl, rfl⟩
  have resources (manager : EventManager F)
      : (manager.tickResources tick).groundItems = manager.groundItems
        ∧ (manager.tickResources tick).nextDropId = manager.nextDropId := by
    unfold tickResources
    split <;> exact ⟨rfl, rfl⟩
  have wave (manager : EventManager F)
      : (manager.tickEnemyWave tick).groundItems = manager.groundItems
        ∧ (manager.tickEnemyWave tick).nextDropId = manager.nextDropId := by
    unfold tickEnemyWave
    split <;> exact ⟨rfl, rfl⟩
  simp only [tickPeriodicEvents, tickGroundItems]
  rw [(wave _).1, (wave _).2, (resources _).1, (resources _).2, (weather _).1, (weather _).2,
    (day _).1, (day _).2]
  exact ⟨rfl, rfl⟩

/-- A pickup finds nothing in range, or takes the first item that is. -/
theorem pickupWhere_cases (entityId : EntityId) (near : F × F × F → Bool)
    (manager : EventManager F)
    : (manager.pickupWhere entityId near = some (none, manager)
        ∧ ∀ item ∈ manager.groundItems, near item.position = false)
      ∨ ∃ (idx : Nat) (item : GroundItem F),
          manager.groundItems[idx]? = some item
          ∧ near item.position = true
          ∧ manager.pickupWhere entityId near
            = some
                (some (item.itemId, item.quantity),
                  { manager with groundItems := manager.groundItems.eraseIdx idx }.emit
                    (.itemPickedUp entityId item.itemId item.quantity)) := by
  unfold pickupWhere
  cases found : manager.groundItems.findIdx? (fun item => near item.position) with
  | none => exact Or.inl ⟨rfl, List.findIdx?_eq_none_iff.mp found⟩
  | some idx =>
      obtain ⟨inRange, isNear, -⟩ := List.findIdx?_eq_some_iff_getElem.mp found
      have isItem := List.getElem?_eq_getElem inRange
      exact Or.inr ⟨idx, _, isItem, isNear, by simp only [isItem, Option.bind_eq_bind,
        Option.bind_some]⟩

/-- Where the ids are distinct, what was removed and what is left is what was there. -/
theorem perm_removed (nodup : (turn.before.groundItems.map GroundItem.dropId).Nodup)
    (left : turn.after.groundItems.Sublist turn.before.groundItems)
    : (turn.removed ++ turn.after.groundItems).Perm turn.before.groundItems := by
  have items := List.Nodup.of_map _ nodup
  rw [List.perm_ext_iff_of_nodup _ items]
  · intro item
    rw [List.mem_append, GroundTurn.removed, List.mem_filter, decide_eq_true_iff]
    constructor
    · rintro (⟨member, -⟩ | isLeft)
      · exact member
      · exact left.mem isLeft
    · intro member
      by_cases same : item.dropId ∈ turn.after.groundItems.map GroundItem.dropId
      · obtain ⟨other, isLeft, sameId⟩ := List.mem_map.mp same
        obtain rfl := List.inj_on_of_nodup_map nodup (left.mem isLeft) member sameId
        exact Or.inr isLeft
      · exact Or.inl ⟨member, same⟩
  · refine List.Nodup.append (items.filter _) (items.sublist left) fun item isRemoved isLeft => ?_
    have gone := of_decide_eq_true (List.mem_filter.mp isRemoved).2
    exact gone (List.mem_map_of_mem isLeft)

/-- Fewer than 2 ^ 64 items have distinct ids. -/
theorem Conserved.nodup (conserved : manager.Conserved past)
    (fits : (past.flatMap GroundTurn.dropped).length < 2 ^ 64)
    : ((past.flatMap GroundTurn.dropped).map GroundItem.dropId).Nodup := by
  rw [conserved.numbered]
  refine List.Nodup.map_on (fun first inRange second inRange' same => ?_) List.nodup_range
  have numbers := congrArg UInt64.toNat same
  have := List.mem_range.mp inRange
  have := List.mem_range.mp inRange'
  rw [UInt64.toNat_ofNat', UInt64.toNat_ofNat', Nat.mod_eq_of_lt (by omega),
    Nat.mod_eq_of_lt (by omega)] at numbers
  omega

theorem Conserved.nodup_groundItems (conserved : manager.Conserved past)
    (fits : (past.flatMap GroundTurn.dropped).length < 2 ^ 64)
    : (manager.groundItems.map GroundItem.dropId).Nodup :=
  ((((conserved.accounted fits).map GroundItem.dropId).nodup_iff.mpr
    (conserved.nodup fits)).sublist ((List.sublist_append_right _ _).map _))

end EventManager

-----------------------------------------------------------------------------------------
-- One call
-----------------------------------------------------------------------------------------

/-- A pickup finds nothing in range and removes nothing, or it returns the item and the quantity
of the one drop it removes.
-/
def GroundTurn.Taken (turn : GroundTurn F) : Prop :=
  ∀ entityId near, turn.op = .tryPickup entityId near →
    (turn.reply = .pickedUp none
      ∧ turn.pickedUp = []
      ∧ ∀ item ∈ turn.before.groundItems, near item.position = false)
    ∨ ∃ item,
        turn.reply = .pickedUp (some (item.itemId, item.quantity))
        ∧ turn.pickedUp = [item]
        ∧ near item.position = true

namespace EventManager

variable {keccak256 : Bytes → B256} {past : List (GroundTurn F)} {turn : GroundTurn F}

/-- A pickup near a position is one with its range as the test. -/
theorem call_tryPickup [F32 F] (keccak256 : Bytes → B256) (entityId : EntityId)
    (position : F × F × F) (pickupRange : F) (manager : EventManager F)
    : call keccak256 (.tryPickup entityId (inRange position pickupRange)) manager
      = (manager.tryPickup entityId position pickupRange).map
          (fun out => (.pickedUp out.1, out.2)) :=
  rfl

/-- Every call returns. -/
theorem call_returns (keccak256 : Bytes → B256) (op : GroundOp F) (manager : EventManager F)
    : ∃ reply after, call keccak256 op manager = some (reply, after) := by
  cases op with
  | dropItem itemId quantity position tick => exact ⟨_, _, rfl⟩
  | tryPickup entityId near =>
      rcases manager.pickupWhere_cases entityId near
        with ⟨same, -⟩ | ⟨idx, item, -, -, same⟩ <;> exact ⟨_, _, congrArg (Option.map _) same⟩
  | tickPeriodicEvents tick seed => exact ⟨_, _, rfl⟩

/-- A call that drops nothing keeps the ids of what is there, and removes it in place. -/
theorem sublist_of_call
    (returns : call keccak256 turn.op turn.before = some (turn.reply, turn.after))
    (noDrop : turn.dropped = [])
    : turn.after.groundItems.Sublist turn.before.groundItems
      ∧ turn.after.nextDropId = turn.before.nextDropId := by
  cases isOp : turn.op with
  | dropItem itemId quantity position tick =>
      rw [isOp] at returns
      have isReply := (Prod.mk.inj (Option.some.inj returns)).1
      simp [GroundTurn.dropped, isOp, ← isReply] at noDrop
  | tryPickup entityId near =>
      rw [isOp] at returns
      obtain ⟨out, picked, isOut⟩ := Option.map_eq_some_iff.mp returns
      rw [← (Prod.mk.inj isOut).2]
      rcases turn.before.pickupWhere_cases entityId near
        with ⟨same, -⟩ | ⟨idx, item, -, -, same⟩
      · rw [← Option.some.inj (same.symm.trans picked)]
        exact ⟨.refl _, rfl⟩
      · rw [← Option.some.inj (same.symm.trans picked)]
        exact ⟨List.eraseIdx_sublist _ _, rfl⟩
  | tickPeriodicEvents tick seed =>
      rw [isOp] at returns
      have isAfter : turn.before.tickPeriodicEvents keccak256 tick seed = turn.after :=
        (Prod.mk.inj (Option.some.inj returns)).2
      obtain ⟨items, next⟩ := tickPeriodicEvents_groundItems keccak256 tick seed turn.before
      rw [← isAfter, items]
      exact ⟨List.filter_sublist, next⟩

/-- A tick removes the items whose time is over, and no others. -/
theorem expired_eq_removed (nodup : (turn.before.groundItems.map GroundItem.dropId).Nodup)
    {tick seed : UInt64} (isOp : turn.op = .tickPeriodicEvents tick seed)
    (returns : call keccak256 turn.op turn.before = some (turn.reply, turn.after))
    : turn.expired = turn.removed := by
  rw [isOp] at returns
  have isAfter : turn.before.tickPeriodicEvents keccak256 tick seed = turn.after :=
    (Prod.mk.inj (Option.some.inj returns)).2
  have left := (tickPeriodicEvents_groundItems keccak256 tick seed turn.before).1
  rw [isAfter] at left
  have expires (item : GroundItem F)
      : item.isExpired tick
        = !(item.despawnTicks == 0
            || decide (tick.toNat - item.droppedAt.toNat < item.despawnTicks.toNat)) := by
    have zero : item.despawnTicks = 0 ↔ item.despawnTicks.toNat = 0 := UInt32.toNat_inj.symm
    rw [Bool.eq_iff_iff]
    simp only [GroundItem.isExpired, Bool.and_eq_true, decide_eq_true_iff, Bool.not_eq_true',
      Bool.or_eq_false_iff, beq_eq_false_iff_ne, ne_eq, decide_eq_false_iff_not, zero]
    omega
  rw [GroundTurn.expired, isOp, GroundTurn.removed]
  refine List.filter_congr (fun item member => ?_)
  rw [expires, Bool.eq_iff_iff, Bool.not_eq_true', decide_eq_true_iff, left]
  constructor
  · intro dropped kept
    obtain ⟨other, isOther, sameId⟩ := List.mem_map.mp kept
    obtain ⟨there, stays⟩ := List.mem_filter.mp isOther
    obtain rfl := List.inj_on_of_nodup_map nodup there member sameId
    exact absurd (stays.symm.trans dropped) (by decide)
  · intro gone
    rw [Bool.eq_false_iff]
    exact fun stays => gone (List.mem_map_of_mem (List.mem_filter.mpr ⟨member, stays⟩))

/-- A call that drops nothing removes what it picks up or what expires. -/
theorem Conserved.append_of_noDrop (conserved : turn.before.Conserved past)
    (returns : call keccak256 turn.op turn.before = some (turn.reply, turn.after))
    (noDrop : turn.dropped = [])
    (removed
      : (turn.before.groundItems.map GroundItem.dropId).Nodup →
          (turn.pickedUp = turn.removed ∧ turn.expired = [])
          ∨ (turn.pickedUp = [] ∧ turn.expired = turn.removed))
    : turn.after.Conserved (past ++ [turn]) := by
  obtain ⟨left, next⟩ := sublist_of_call returns noDrop
  have sameDropped
      : (past ++ [turn]).flatMap GroundTurn.dropped = past.flatMap GroundTurn.dropped := by
    rw [List.flatMap_append, List.flatMap_singleton, noDrop, List.append_nil]
  constructor
  case accounted =>
    intro fits
    rw [sameDropped] at fits ⊢
    have nodup := conserved.nodup_groundItems fits
    have perm := perm_removed nodup left
    refine List.Perm.trans ?_ (conserved.accounted fits)
    rw [List.flatMap_append, List.flatMap_singleton, List.flatMap_append, List.flatMap_singleton]
    refine List.Perm.trans ?_ (perm.append_left _)
    rcases removed nodup with ⟨isPicked, isExpired⟩ | ⟨isPicked, isExpired⟩
    · rw [isPicked, isExpired, List.append_nil]
      simp only [List.append_assoc]
      exact (List.perm_append_comm_assoc _ _ _).append_left _
    · rw [isPicked, isExpired, List.append_nil, ← List.append_assoc, ← List.append_assoc]
  case numbered =>
    rw [sameDropped]
    exact conserved.numbered
  case next =>
    rw [sameDropped, next]
    exact conserved.next

/-- A call that drops one item gives it the next number. -/
theorem Conserved.append_of_drop (conserved : turn.before.Conserved past) {item : GroundItem F}
    (isDropped : turn.dropped = [item]) (isId : item.dropId = turn.before.nextDropId)
    (next : turn.after.nextDropId = turn.before.nextDropId + 1)
    (items : turn.after.groundItems = turn.before.groundItems ++ turn.dropped)
    (noPickup : turn.pickedUp = []) (noExpiry : turn.expired = [])
    : turn.after.Conserved (past ++ [turn]) := by
  constructor
  case accounted =>
    intro fits
    rw [List.flatMap_append, List.flatMap_singleton, List.length_append] at fits
    have before := conserved.accounted (by omega)
    simp only [List.flatMap_append, List.flatMap_singleton, noPickup, noExpiry, List.append_nil]
    rw [items, ← List.append_assoc]
    exact before.append_right _
  case numbered =>
    simp only [List.flatMap_append, List.flatMap_singleton, isDropped, List.map_append,
      List.length_append, List.length_singleton, List.range_succ]
    rw [conserved.numbered]
    simp [isId, conserved.next]
  case next =>
    simp only [List.flatMap_append, List.flatMap_singleton, isDropped, List.length_append,
      List.length_singleton, next]
    rw [UInt64.ofNat_add _ 1, ← conserved.next]
    rfl

/-- A call drops an item with the next number, or what it removes is picked up or expired. -/
theorem Conserved.call (conserved : turn.before.Conserved past)
    (returns : call keccak256 turn.op turn.before = some (turn.reply, turn.after))
    : turn.after.Conserved (past ++ [turn]) := by
  cases isOp : turn.op with
  | dropItem itemId quantity position tick =>
      rw [isOp] at returns
      obtain ⟨isReply, isAfter⟩ := Prod.mk.inj (Option.some.inj returns)
      have isDropped
          : turn.dropped
            = [{ dropId := turn.before.nextDropId, itemId, quantity, position
                 droppedAt := tick, despawnTicks := 600 }] := by
        rw [GroundTurn.dropped, isOp, ← isReply]
      refine conserved.append_of_drop isDropped rfl ?_ ?_ ?_ ?_
      · rw [← isAfter]
        rfl
      · rw [isDropped, ← isAfter]
        rfl
      · rw [GroundTurn.pickedUp, isOp]
      · rw [GroundTurn.expired, isOp]
  | tryPickup entityId near =>
      refine conserved.append_of_noDrop returns (by rw [GroundTurn.dropped, isOp])
        (fun _ => Or.inl ⟨?_, ?_⟩)
      · rw [GroundTurn.pickedUp, isOp]
      · rw [GroundTurn.expired, isOp]
  | tickPeriodicEvents tick seed =>
      refine conserved.append_of_noDrop returns (by rw [GroundTurn.dropped, isOp])
        (fun nodup => Or.inr ⟨?_, expired_eq_removed nodup isOp returns⟩)
      rw [GroundTurn.pickedUp, isOp]

/-- A pickup takes one item at most, and returns it. -/
theorem taken_call (nodup : (turn.before.groundItems.map GroundItem.dropId).Nodup)
    (returns : call keccak256 turn.op turn.before = some (turn.reply, turn.after))
    : turn.Taken := by
  intro entityId near isOp
  have noDrop : turn.dropped = [] := by rw [GroundTurn.dropped, isOp]
  have isPicked : turn.pickedUp = turn.removed := by rw [GroundTurn.pickedUp, isOp]
  have perm := perm_removed nodup (sublist_of_call returns noDrop).1
  rw [isOp] at returns
  obtain ⟨out, picked, isOut⟩ := Option.map_eq_some_iff.mp returns
  obtain ⟨isReply, isAfter⟩ := Prod.mk.inj isOut
  rw [isPicked]
  rcases turn.before.pickupWhere_cases entityId near
    with ⟨same, noneNear⟩ | ⟨idx, item, isItem, isNear, same⟩
  · obtain rfl := Option.some.inj (same.symm.trans picked)
    simp only at isReply isAfter
    refine Or.inl ⟨isReply.symm, ?_, noneNear⟩
    rw [← isAfter] at perm
    have := perm.length_eq
    rw [List.length_append] at this
    exact List.eq_nil_of_length_eq_zero (by omega)
  · obtain rfl := Option.some.inj (same.symm.trans picked)
    simp only at isReply isAfter
    refine Or.inr ⟨item, isReply.symm, ?_, isNear⟩
    obtain ⟨inRange, isHere⟩ := List.getElem?_eq_some_iff.mp isItem
    have left : turn.after.groundItems = turn.before.groundItems.eraseIdx idx := by
      rw [← isAfter]
      rfl
    have taken : ([item] ++ turn.before.groundItems.eraseIdx idx).Perm turn.before.groundItems :=
      isHere ▸ List.getElem_cons_eraseIdx_perm inRange
    rw [left] at perm
    exact List.perm_singleton.mp ((List.perm_append_right_iff _).mp (perm.trans taken.symm))

-----------------------------------------------------------------------------------------
-- Runs
-----------------------------------------------------------------------------------------

/-- The items dropped in every run are, up to their order, those picked up, those whose time was
over at a tick and those on the ground. Their ids are distinct, and each pickup returns what it
takes, one item at most.
-/
theorem groundItems_conserved (keccak256 : Bytes → B256) (ops : List (GroundOp F))
    (fewer
      : ((CallTrace.calls (call keccak256) ops .new).flatMap GroundTurn.dropped).length
        < 2 ^ 64)
    : let turns : List (GroundTurn F) := CallTrace.calls (call keccak256) ops .new
      let pickedUp := turns.flatMap GroundTurn.pickedUp
      let expired := turns.flatMap GroundTurn.expired
      let ground := (CallTrace.final (call keccak256) ops .new).groundItems
      turns.length = ops.length
      ∧ (pickedUp ++ expired ++ ground).Perm (turns.flatMap GroundTurn.dropped)
      ∧ ((turns.flatMap GroundTurn.dropped).map GroundItem.dropId).Nodup
      ∧ ((pickedUp ++ expired ++ ground).map GroundItem.dropId).Nodup
      ∧ ∀ turn ∈ turns, turn.Taken := by
  have start : (new : EventManager F).Conserved [] := ⟨fun _ => .nil, rfl, rfl⟩
  have keeps (past : List (GroundTurn F)) (turn : GroundTurn F)
      (conserved : turn.before.Conserved past)
      (returns : call keccak256 turn.op turn.before = some (turn.reply, turn.after)) :=
    conserved.call returns
  have conserved : Conserved ([] ++ CallTrace.calls (call keccak256) ops .new) _ :=
    CallTrace.past_invariant_final (fun past manager => Conserved past manager) keeps start
  rw [List.nil_append] at conserved
  have perm := conserved.accounted fewer
  have nodup := conserved.nodup fewer
  refine ⟨?_, perm, nodup, (perm.map _).nodup_iff.mpr nodup, fun turn member => ?_⟩
  · refine CallTrace.length_calls (fun _ => True) (fun op manager _ => ?_) trivial
    obtain ⟨reply, after, returns⟩ := call_returns keccak256 op manager
    exact ⟨reply, after, returns, trivial⟩
  · obtain ⟨earlier, later, split⟩ := List.append_of_mem member
    have before : turn.before.Conserved ([] ++ earlier) :=
      CallTrace.past_invariant (fun past manager => Conserved past manager) keeps start split
    rw [List.nil_append] at before
    refine taken_call (before.nodup_groundItems (Nat.lt_of_le_of_lt ?_ fewer))
      (CallTrace.call_of_mem member)
    rw [split, List.flatMap_append, List.length_append]
    exact Nat.le_add_right _ _

/-- Two potions are dropped, one is picked up, and a tick comes when the other one expires. -/
def potionDrops : List (GroundOp OneFloat) :=
  [ .dropItem 20 2 (.value, .value, .value) 0
  , .dropItem 21 1 (.value, .value, .value) 0
  , .tryPickup 1 (inRange (.value, .value, .value) .value)
  , .tickPeriodicEvents 601 0 ]

theorem groundItems_conserved_potionDrops
    : let turns : List (GroundTurn OneFloat) :=
        CallTrace.calls (call fun _ => 0) potionDrops .new
      let pickedUp := turns.flatMap GroundTurn.pickedUp
      let expired := turns.flatMap GroundTurn.expired
      let ground := (CallTrace.final (call fun _ => 0) potionDrops .new).groundItems
      turns.length = potionDrops.length
      ∧ (pickedUp ++ expired ++ ground).Perm (turns.flatMap GroundTurn.dropped)
      ∧ ((turns.flatMap GroundTurn.dropped).map GroundItem.dropId).Nodup
      ∧ ((pickedUp ++ expired ++ ground).map GroundItem.dropId).Nodup
      ∧ ∀ turn ∈ turns, turn.Taken :=
  groundItems_conserved (fun _ => 0) potionDrops (by decide +kernel)

end EventManager

end VeloChain
