import Mathlib.Data.List.Count
import Mathlib.Data.List.Nodup
import VeloChain.GameEngine.Ecs
import VeloChain.Sdk.WebSocket

/-! How often an event reaches the handlers of a client.
Every stream of the connection sends its own notification of an event, and every notification
goes to all handlers of the event's tag. So a handler is called once for an event exactly when
its key is the tag and a single stream forwards the event.
-/

namespace VeloChain

variable {F : Type}

/-- Whether an event is of the kind that a handler is subscribed to. -/
def SdkSubscription.receives : SdkSubscription → Rpc.GameEvent F → Bool
  | .newBlocks, .newBlock _ _ _ _ | .ethNewHeads, .newBlock _ _ _ _ => true
  | .gameTicks, .gameTick _ _ _ _ => true
  | .pendingTxs, .pendingTransaction _
  | .ethNewPendingTransactions, .pendingTransaction _ => true
  | .playerState, .playerState _ _ _ _ => true
  | .chatMessages, .chatMessage _ _ _ => true
  | .entityUpdates, .entityUpdate _ _ _ _ _ => true
  | _, _ => false

/-- Every event reaches each handler that is subscribed to its kind once, and no other one. -/
def DeliveredOnce (client : WsClient) (events : List (Rpc.GameEvent F))
    (calls : List (String × Nat))
    : Prop :=
  ∀ event place, (event, place) ∈ events.zipIdx → ∀ id kind, (id, kind) ∈ client.subscriptions →
    calls.count (id, place) = if kind.receives event then 1 else 0

namespace WsConnection

/-- The handlers of an event have its tag as their key, and a single stream forwards it. -/
def ServesOnce (connection : WsConnection) (event : Rpc.GameEvent F) : Prop :=
  ∀ id kind, (id, kind) ∈ connection.client.subscriptions → kind.receives event = true →
    kind.subKey = event.type
    ∧ connection.streams.countP (fun stream => stream.forwards event) = 1

/-- Handlers have different ids, which were made of their keys and earlier request ids. -/
structure Keyed (connection : WsConnection) : Prop where
  nodup : (connection.client.subscriptions.map Prod.fst).Nodup
  made
    : ∀ id kind, (id, kind) ∈ connection.client.subscriptions →
        ∃ n, n ≤ connection.client.requestId ∧ id = kind.subKey ++ "_" ++ toString n

-----------------------------------------------------------------------------------------
-- Ids
-----------------------------------------------------------------------------------------

/-- The number of an id is what follows its first underscore. -/
theorem dropWhile_id (kind : SdkSubscription) (n : Nat)
    : (kind.subKey ++ "_" ++ toString n).toList.dropWhile (· != '_')
      = '_' :: (toString n).toList := by
  cases kind <;> rw [String.toList_append, String.toList_append] <;> rfl

theorem id_inj {kind kind' : SdkSubscription} {n m : Nat}
    (same : kind.subKey ++ "_" ++ toString n = kind'.subKey ++ "_" ++ toString m)
    : n = m := by
  have numbers := congrArg (fun id => id.toList.dropWhile (· != '_')) same
  rw [dropWhile_id, dropWhile_id, List.cons.injEq] at numbers
  have digits : Nat.toDigits 10 n = Nat.toDigits 10 m := by
    rw [← Nat.toList_repr, ← Nat.toList_repr]
    exact numbers.2
  have values := congrArg (fun digits => Nat.ofDigitChars 10 digits 0) digits
  rwa [Nat.ofDigitChars_ten_toDigits, Nat.ofDigitChars_ten_toDigits] at values

/-- The prefix of an id tells the key: the tag of an event begins only the ids of its own key. -/
theorem matchesEvent_id (kind : SdkSubscription) (n : Nat) (event : Rpc.GameEvent F)
    : WsClient.matchesEvent (kind.subKey ++ "_" ++ toString n) event = true
      ↔ kind.subKey = event.type := by
  unfold WsClient.matchesEvent
  rw [String.toList_append, String.toList_append]
  cases kind <;> cases event <;>
    simp [SdkSubscription.subKey, Rpc.GameEvent.type, List.isPrefixOf]

theorem receives_of_subKey {kind : SdkSubscription} {event : Rpc.GameEvent F}
    (same : kind.subKey = event.type)
    : kind.receives event = true := by
  cases kind <;> cases event <;>
    first
    | rfl
    | exact absurd same (by simp [SdkSubscription.subKey, Rpc.GameEvent.type])

-----------------------------------------------------------------------------------------
-- Reachable connections
-----------------------------------------------------------------------------------------

theorem Keyed.sendSubscriptionRequest {connection : WsConnection} (keyed : connection.Keyed)
    (method params : String)
    : (connection.sendSubscriptionRequest method params).Keyed where
  nodup := keyed.nodup
  made id kind member := by
    obtain ⟨n, le, isId⟩ := keyed.made id kind member
    exact ⟨n, Nat.le_succ_of_le le, isId⟩

theorem Keyed.subscribe {connection : WsConnection} (keyed : connection.Keyed)
    (kind : SdkSubscription)
    : (connection.subscribe kind).Keyed := by
  let id := kind.subKey ++ "_" ++ toString (connection.client.requestId + 1)
  have fresh : ∀ entry ∈ connection.client.subscriptions, entry.1 ≠ id := by
    rintro ⟨other, kind'⟩ member same
    obtain ⟨n, le, isId⟩ := keyed.made other kind' member
    have := id_inj (isId.symm.trans same)
    omega
  have added
      : setEntry id kind connection.client.subscriptions
        = connection.client.subscriptions ++ [(id, kind)] := by
    unfold setEntry
    rw [if_neg]
    intro known
    obtain ⟨entry, member, same⟩ := List.any_eq_true.mp known
    exact fresh entry member (beq_iff_eq.mp same)
  refine Keyed.sendSubscriptionRequest ⟨?_, ?_⟩ _ _
  · change ((setEntry id kind connection.client.subscriptions).map Prod.fst).Nodup
    rw [added, List.map_append, List.map_singleton]
    refine keyed.nodup.append (List.nodup_singleton id) ?_
    intro other member isId
    obtain ⟨entry, isEntry, rfl⟩ := List.mem_map.mp member
    exact fresh entry isEntry (List.mem_singleton.mp isId)
  · intro other kind' member
    change (other, kind') ∈ setEntry id kind connection.client.subscriptions at member
    rw [added] at member
    rcases List.mem_append.mp member with before | new
    · obtain ⟨n, le, isId⟩ := keyed.made other kind' before
      exact ⟨n, Nat.le_succ_of_le le, isId⟩
    · obtain ⟨rfl, rfl⟩ := Prod.mk.inj (List.mem_singleton.mp new)
      exact ⟨_, le_rfl, rfl⟩

theorem Keyed.unsubscribe {connection : WsConnection} (keyed : connection.Keyed) (id : String)
    : (connection.unsubscribe id).Keyed where
  nodup := keyed.nodup.sublist ((List.filter_sublist).map Prod.fst)
  made other kind member := keyed.made other kind (List.mem_of_mem_filter member)

theorem Keyed.reconnect {connection : WsConnection} (keyed : connection.Keyed)
    : connection.reconnect.Keyed := by
  have closed : { connection with streams := [] }.Keyed := ⟨keyed.nodup, keyed.made⟩
  unfold WsConnection.reconnect resubscribeAll
  refine List.foldlRecOn (motive := Keyed) _ _ closed fun current still entry _ => ?_
  dsimp only
  split
  next => exact still.sendSubscriptionRequest _ _
  next => exact still

/-- Every reachable connection has keyed handlers, by induction on the calls. -/
theorem keyed_run (ops : List WsOp) : (run ops).Keyed := by
  refine List.foldlRecOn (motive := Keyed) _ _ ⟨List.nodup_nil, by simp [connected]⟩ ?_
  intro connection keyed op _
  cases op with
  | subscribe kind => exact keyed.subscribe kind
  | unsubscribe id => exact keyed.unsubscribe id
  | reconnect => exact keyed.reconnect

-----------------------------------------------------------------------------------------
-- Counting the calls
-----------------------------------------------------------------------------------------

/-- A notification calls the handler of an id once if its key is the tag of the event. -/
theorem Keyed.count_dispatchEvent {connection : WsConnection} (keyed : connection.Keyed)
    {id : String} {kind : SdkSubscription}
    (member : (id, kind) ∈ connection.client.subscriptions) (event : Rpc.GameEvent F)
    : (connection.client.dispatchEvent event).count id
      = if kind.subKey = event.type then 1 else 0 := by
  obtain ⟨n, _, isId⟩ := keyed.made id kind member
  have matched := matchesEvent_id kind n event
  rw [← isId] at matched
  have nodup : (connection.client.dispatchEvent event).Nodup :=
    keyed.nodup.sublist ((List.filter_sublist).map Prod.fst)
  by_cases same : kind.subKey = event.type
  · rw [if_pos same]
    refine List.count_eq_one_of_mem nodup (List.mem_map.mpr ⟨(id, kind), ?_, rfl⟩)
    exact List.mem_filter.mpr ⟨member, matched.mpr same⟩
  · rw [if_neg same]
    refine List.count_eq_zero_of_not_mem fun called => ?_
    obtain ⟨⟨other, kind'⟩, isThere, rfl⟩ := List.mem_map.mp called
    exact same (matched.mp (List.mem_filter.mp isThere).2)

/-- The calls for one event, from each of the streams that forward it. -/
theorem Keyed.count_event {connection : WsConnection} (keyed : connection.Keyed) {id : String}
    {kind : SdkSubscription} (member : (id, kind) ∈ connection.client.subscriptions)
    (event : Rpc.GameEvent F) (place : Nat)
    : (connection.client.deliveries
          ((connection.streams.filter (fun stream => stream.forwards event)).map
            (fun _ => (event, place)))).count (id, place)
      = connection.streams.countP (fun stream => stream.forwards event)
        * if kind.subKey = event.type then 1 else 0 := by
  have each
      : ((connection.client.dispatchEvent event).map (fun subId => (subId, place))).count
          (id, place)
        = if kind.subKey = event.type then 1 else 0 := by
    rw [List.count_map_of_injective _ (fun subId => (subId, place))
      (fun _ _ same => (Prod.mk.inj same).1)]
    exact keyed.count_dispatchEvent member event
  rw [List.countP_eq_length_filter]
  induction connection.streams.filter (fun stream => stream.forwards event) with
  | nil => simp [WsClient.deliveries]
  | cons stream rest ih =>
      rw [WsClient.deliveries, List.map_cons, List.flatMap_cons, List.count_append, each,
        List.length_cons, Nat.succ_mul, Nat.add_comm]
      exact congrArg (· + _) ih

/-- Only the notifications of an event count for its place. -/
theorem count_flatMap_of_place {α β : Type} [DecidableEq β] {entries : List (α × Nat)}
    (distinct : (entries.map Prod.snd).Nodup) (calls : α × Nat → List (β × Nat))
    (placed : ∀ entry ∈ entries, ∀ call ∈ calls entry, call.2 = entry.2) {value : α}
    {place : Nat} (member : (value, place) ∈ entries) (id : β)
    : (entries.flatMap calls).count (id, place) = (calls (value, place)).count (id, place) := by
  induction entries with
  | nil => simp at member
  | cons entry rest ih =>
      rw [List.map_cons, List.nodup_cons] at distinct
      rw [List.flatMap_cons, List.count_append]
      rcases List.mem_cons.mp member with rfl | later
      · rw [Nat.add_eq_left, List.count_eq_zero]
        intro called
        obtain ⟨other, isOther, isCall⟩ := List.mem_flatMap.mp called
        have same := placed other (List.mem_cons_of_mem _ isOther) _ isCall
        exact distinct.1 (List.mem_map.mpr ⟨other, isOther, same.symm⟩)
      · rw [ih distinct.2 (fun other isOther => placed other (List.mem_cons_of_mem _ isOther))
          later, Nat.add_eq_right, List.count_eq_zero]
        intro called
        have same := placed entry List.mem_cons_self _ called
        exact distinct.1 (List.mem_map.mpr ⟨(value, place), later, same⟩)

theorem Keyed.count_deliveries {connection : WsConnection} (keyed : connection.Keyed)
    {events : List (Rpc.GameEvent F)} {arrived : List (Rpc.GameEvent F × Nat)}
    (sent : arrived.Perm (notifications connection.streams events)) {id : String}
    {kind : SdkSubscription} (member : (id, kind) ∈ connection.client.subscriptions)
    {event : Rpc.GameEvent F} {place : Nat} (published : (event, place) ∈ events.zipIdx)
    : (connection.client.deliveries arrived).count (id, place)
      = connection.streams.countP (fun stream => stream.forwards event)
        * if kind.subKey = event.type then 1 else 0 := by
  have inOrder : (connection.client.deliveries arrived).Perm
      (connection.client.deliveries (notifications connection.streams events)) :=
    sent.flatMap_right _
  rw [inOrder.count_eq, ← keyed.count_event member event place, WsClient.deliveries,
    notifications, List.flatMap_assoc]
  refine count_flatMap_of_place ?_ _ ?_ published id
  · rw [List.zipIdx_map_snd]
    exact List.nodup_range'
  · intro entry _ call isCall
    obtain ⟨notification, isSent, called⟩ := List.mem_flatMap.mp isCall
    obtain ⟨_, _, rfl⟩ := List.mem_map.mp isSent
    obtain ⟨_, _, rfl⟩ := List.mem_map.mp called
    rfl

/-- In whatever order the notifications arrive, every event reaches the handlers of its kind once
and no others exactly when each of the events is served once.
-/
theorem deliveredOnce_iff (ops : List WsOp) {events : List (Rpc.GameEvent F)}
    {arrived : List (Rpc.GameEvent F × Nat)}
    (sent : arrived.Perm (notifications (run ops).streams events))
    : DeliveredOnce (run ops).client events ((run ops).client.deliveries arrived)
      ↔ ∀ event ∈ events, (run ops).ServesOnce event := by
  have keyed := keyed_run ops
  constructor
  · intro delivered event isEvent id kind member receives
    obtain ⟨place, inRange, rfl⟩ := List.mem_iff_getElem.mp isEvent
    have published : (events[place], place) ∈ events.zipIdx := by
      simp [List.mem_zipIdx_iff_getElem?]
    have count := delivered _ place published id kind member
    rw [keyed.count_deliveries sent member published, if_pos receives] at count
    by_cases same : kind.subKey = events[place].type
    · rw [if_pos same, Nat.mul_one] at count
      exact ⟨same, count⟩
    · rw [if_neg same, Nat.mul_zero] at count
      exact absurd count (by decide)
  · intro serves event place published id kind member
    rw [keyed.count_deliveries sent member published]
    by_cases receives : kind.receives event = true
    · obtain ⟨same, single⟩ :=
        serves event (List.fst_mem_of_mem_zipIdx published) id kind member receives
      rw [if_pos receives, if_pos same, single]
    · rw [if_neg receives, if_neg (fun same => receives (receives_of_subKey same)), Nat.mul_zero]

/-- A game tick without entities. -/
def firstTick : Rpc.GameEvent Milli := .gameTick 1 0 0 "0x00"

theorem deliveredOnce_iff_gameTick
    : DeliveredOnce (run [.subscribe .gameTicks]).client [firstTick]
          ((run [.subscribe .gameTicks]).client.deliveries [(firstTick, 0)])
      ↔ ∀ event ∈ [firstTick], (run [.subscribe .gameTicks]).ServesOnce event :=
  deliveredOnce_iff [.subscribe .gameTicks] (.refl _)

/-- Two handlers of game ticks are called twice for one tick, and a handler of pending
transactions is never called.
-/
theorem deliveredOnce_fails
    : ¬ DeliveredOnce (run [.subscribe .gameTicks, .subscribe .gameTicks]).client [firstTick]
          ((run [.subscribe .gameTicks, .subscribe .gameTicks]).client.deliveries
            (notifications (run [.subscribe .gameTicks, .subscribe .gameTicks]).streams
              [firstTick]))
      ∧ ¬ DeliveredOnce (run [.subscribe .pendingTxs]).client
            [(.pendingTransaction "0x00" : Rpc.GameEvent Milli)]
            ((run [.subscribe .pendingTxs]).client.deliveries
              (notifications (run [.subscribe .pendingTxs]).streams
                [(.pendingTransaction "0x00" : Rpc.GameEvent Milli)])) := by
  constructor
  · intro delivered
    have once := delivered firstTick 0 List.mem_cons_self "gameTick_1" .gameTicks
      (by decide +kernel)
    exact absurd once (by decide +kernel)
  · intro delivered
    have once := delivered (.pendingTransaction "0x00") 0 List.mem_cons_self "pendingTx_1"
      .pendingTxs (by decide +kernel)
    exact absurd once (by decide +kernel)

end WsConnection

end VeloChain
