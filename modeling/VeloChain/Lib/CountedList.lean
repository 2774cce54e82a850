import Mathlib.Data.List.Nodup

/-! Lists whose items are numbered one after another.
Where such a list is split by kind, the first part is numbered from the same start exactly when
it precedes the second part.
-/

namespace CountedList

variable {α : Type*} (number : α → Nat)

/-- The items have the numbers from `first` on, without a gap. -/
def CountsFrom (first : Nat) (items : List α) : Prop :=
  items.map number = List.range' first items.length

variable {number} {first : Nat} {items : List α}

theorem countsFrom_nil (first : Nat) : CountsFrom number first [] := rfl

theorem countsFrom_cons {item : α} {rest : List α}
    : CountsFrom number first (item :: rest)
      ↔ number item = first ∧ CountsFrom number (first + 1) rest := by
  unfold CountsFrom
  rw [List.map_cons, List.length_cons, List.range'_succ, List.cons.injEq]

theorem CountsFrom.le (counts : CountsFrom number first items) {item : α} (member : item ∈ items)
    : first ≤ number item := by
  have listed := List.mem_map_of_mem (f := number) member
  rw [counts, List.mem_range'_1] at listed
  exact listed.1

theorem CountsFrom.ascending (counts : CountsFrom number first items)
    : items.Pairwise (fun left right => number left < number right) := by
  have numbers : (items.map number).Pairwise (· < ·) := by
    rw [counts]
    exact List.pairwise_lt_range'
  exact List.pairwise_map.mp numbers

/-- In a list with ascending numbers, what holds along the list holds from a lower number to a
higher one.
-/
theorem rel_of_ascending {rel : α → α → Prop}
    (ascending : items.Pairwise (fun left right => number left < number right))
    (along : items.Pairwise rel) {left right : α} (inLeft : left ∈ items)
    (inRight : right ∈ items) (below : number left < number right)
    : rel left right := by
  induction items with
  | nil => simp at inLeft
  | cons item rest ih =>
      obtain ⟨lower, ascending⟩ := List.pairwise_cons.mp ascending
      obtain ⟨first, along⟩ := List.pairwise_cons.mp along
      rcases List.mem_cons.mp inLeft with rfl | leftLater
      · rcases List.mem_cons.mp inRight with rfl | rightLater
        · exact absurd below (Nat.lt_irrefl _)
        · exact first right rightLater
      · rcases List.mem_cons.mp inRight with rfl | rightLater
        · exact absurd (lower left leftLater) (Nat.lt_asymm below)
        · exact ih ascending along leftLater rightLater

/-- The beginning of a counted list is counted. -/
theorem CountsFrom.of_append {right : List α} (counts : CountsFrom number first (items ++ right))
    : CountsFrom number first items := by
  induction items generalizing first with
  | nil => exact countsFrom_nil first
  | cons item rest ih =>
      obtain ⟨starts, later⟩ := countsFrom_cons.mp counts
      exact countsFrom_cons.mpr ⟨starts, ih later⟩

/-- A list with ascending numbers that has every number from `first` to its end and no lower
one is counted, by induction on the list.
-/
theorem countsFrom_of_ascending
    (ascending : items.Pairwise (fun left right => number left < number right))
    (lower : ∀ item ∈ items, first ≤ number item)
    (complete : ∀ item ∈ items, ∀ n, first ≤ n → n < number item → n ∈ items.map number)
    : CountsFrom number first items := by
  induction items generalizing first with
  | nil => exact countsFrom_nil first
  | cons item rest ih =>
      obtain ⟨least, ascending⟩ := List.pairwise_cons.mp ascending
      have starts : number item = first := by
        by_contra different
        have le := lower item List.mem_cons_self
        obtain ⟨other, member, same⟩ := List.mem_map.mp
          (complete item List.mem_cons_self first (Nat.le_refl _) (by omega))
        rcases List.mem_cons.mp member with rfl | later
        · exact different same
        · have := least other later
          omega
      refine countsFrom_cons.mpr ⟨starts, ih ascending ?_ ?_⟩
      · intro other later
        have := least other later
        omega
      · intro other later n le below
        obtain ⟨found, member, same⟩ := List.mem_map.mp
          (complete other (List.mem_cons_of_mem item later) n (by omega) below)
        rcases List.mem_cons.mp member with rfl | there
        · omega
        · exact List.mem_map.mpr ⟨found, there, same⟩

/-- A list that is not empty counts from one number only. -/
theorem CountsFrom.iff_eq (counts : CountsFrom number first items) (some_ : items ≠ []) (n : Nat)
    : CountsFrom number n items ↔ n = first := by
  cases items with
  | nil => exact absurd rfl some_
  | cons item rest =>
      obtain ⟨starts, _⟩ := countsFrom_cons.mp counts
      constructor
      · intro other
        rw [← (countsFrom_cons.mp other).1, starts]
      · intro same
        rwa [same]

/-- The items that are not late count from the same start exactly when no late one precedes
them.
-/
theorem CountsFrom.filter_iff {late : α → Bool} (counts : CountsFrom number first items)
    : CountsFrom number first (items.filter (fun item => !late item))
      ↔ items.Pairwise (fun earlier later => late earlier = true → late later = true) := by
  induction items generalizing first with
  | nil => exact iff_of_true rfl .nil
  | cons item rest ih =>
      obtain ⟨starts, later⟩ := countsFrom_cons.mp counts
      rw [List.pairwise_cons]
      cases isLate : late item with
      | false =>
          rw [List.filter_cons_of_pos (by simp [isLate]), countsFrom_cons, ih later]
          simp only [starts, true_and, Bool.false_eq_true, false_imp_iff, implies_true]
      | true =>
          rw [List.filter_cons_of_neg (by simp [isLate])]
          constructor
          · intro early
            -- the rest counts from a higher number, so nothing of it is early
            have none : rest.filter (fun item => !late item) = [] := by
              cases kept : rest.filter (fun item => !late item) with
              | nil => rfl
              | cons other more =>
                  rw [kept, countsFrom_cons] at early
                  have member : other ∈ rest :=
                    List.mem_of_mem_filter (kept ▸ List.mem_cons_self)
                  have := later.le member
                  omega
            have all (other : α) (member : other ∈ rest) : late other = true := by
              have := List.filter_eq_nil_iff.mp none other member
              simpa using this
            exact ⟨fun other member _ => all other member,
              List.pairwise_of_forall_mem_list (fun _ _ other member _ => all other member)⟩
          · rintro ⟨all, _⟩
            have none : rest.filter (fun item => !late item) = [] := by
              rw [List.filter_eq_nil_iff]
              intro other member
              simp [all other member rfl]
            rw [none]
            exact countsFrom_nil first

/-- Where no late item precedes the others, the late ones count on from there. -/
theorem CountsFrom.filter_late {late : α → Bool} (counts : CountsFrom number first items)
    (ordered
      : items.Pairwise (fun earlier later => late earlier = true → late later = true))
    : CountsFrom number (first + (items.filter (fun item => !late item)).length)
        (items.filter late) := by
  induction items generalizing first with
  | nil => exact countsFrom_nil _
  | cons item rest ih =>
      obtain ⟨starts, later⟩ := countsFrom_cons.mp counts
      obtain ⟨here, ordered⟩ := List.pairwise_cons.mp ordered
      cases isLate : late item with
      | false =>
          rw [List.filter_cons_of_pos (by simp [isLate]),
            List.filter_cons_of_neg (by simp [isLate]), List.length_cons, ← Nat.add_assoc,
            Nat.add_right_comm]
          exact ih later ordered
      | true =>
          have all (other : α) (member : other ∈ rest) : late other = true :=
            here other member isLate
          have none : rest.filter (fun item => !late item) = [] := by
            rw [List.filter_eq_nil_iff]
            intro other member
            simp [all other member]
          have kept : rest.filter late = rest := List.filter_eq_self.mpr all
          rw [List.filter_cons_of_pos isLate, List.filter_cons_of_neg (by simp [isLate]), none,
            kept]
          exact counts

-----------------------------------------------------------------------------------------
-- A counter that walks a list
-----------------------------------------------------------------------------------------

/-- The items that a counter takes on its way through a list: those that have its count, which
then goes up by one.
-/
def taken (number : α → Nat) : Nat → List α → List α
  | _, [] => []
  | count, item :: rest =>
      if number item = count then item :: taken number (count + 1) rest
      else taken number count rest

variable {count : Nat}

theorem taken_cons_of_eq {item : α} (same : number item = count) (rest : List α)
    : taken number count (item :: rest) = item :: taken number (count + 1) rest := by
  rw [taken, if_pos same]

theorem taken_cons_of_ne {item : α} (different : number item ≠ count) (rest : List α)
    : taken number count (item :: rest) = taken number count rest := by
  rw [taken, if_neg different]

theorem taken_counts (number : α → Nat) (count : Nat) (items : List α)
    : CountsFrom number count (taken number count items) := by
  induction items generalizing count with
  | nil => exact countsFrom_nil count
  | cons item rest ih =>
      by_cases same : number item = count
      · rw [taken_cons_of_eq same]
        exact countsFrom_cons.mpr ⟨same, ih (count + 1)⟩
      · rw [taken_cons_of_ne same]
        exact ih count

theorem taken_sublist (number : α → Nat) (count : Nat) (items : List α)
    : (taken number count items).Sublist items := by
  induction items generalizing count with
  | nil => exact .slnil
  | cons item rest ih =>
      by_cases same : number item = count
      · rw [taken_cons_of_eq same]
        exact (ih (count + 1)).cons_cons item
      · rw [taken_cons_of_ne same]
        exact (ih count).cons item

/-- Where all items that are not below the count are counted, these are the ones taken. -/
theorem CountsFrom.taken_eq
    (counts : CountsFrom number count (items.filter (fun item => decide (count ≤ number item))))
    : taken number count items = items.filter (fun item => decide (count ≤ number item)) := by
  induction items generalizing count with
  | nil => rfl
  | cons item rest ih =>
      by_cases reached : count ≤ number item
      · rw [List.filter_cons_of_pos (by simpa using reached)] at counts ⊢
        obtain ⟨same, later⟩ := countsFrom_cons.mp counts
        have above : rest.filter (fun item => decide (count ≤ number item))
            = rest.filter (fun item => decide (count + 1 ≤ number item)) := by
          apply List.filter_congr
          intro other member
          rw [decide_eq_decide]
          refine ⟨fun le => ?_, Nat.le_of_succ_le⟩
          exact later.le (List.mem_filter.mpr ⟨member, by simpa using le⟩)
        rw [above] at later ⊢
        rw [taken_cons_of_eq same, ih later]
      · rw [List.filter_cons_of_neg (by simpa using reached)] at counts ⊢
        rw [taken_cons_of_ne (by omega), ih counts]

section Distinct

variable (distinct : items.Pairwise (fun left right => number left ≠ number right))

include distinct

/-- The item with the first count is taken. -/
theorem mem_taken_of_eq {item : α} (member : item ∈ items) (same : number item = count)
    : item ∈ taken number count items := by
  induction items with
  | nil => simp at member
  | cons head rest ih =>
      obtain ⟨apart, distinct⟩ := List.pairwise_cons.mp distinct
      rcases List.mem_cons.mp member with rfl | later
      · rw [taken_cons_of_eq same]
        exact List.mem_cons_self
      · have different : number head ≠ count := same ▸ apart item later
        rw [taken_cons_of_ne different]
        exact ih distinct later

/-- The counter passes every item between its start and an item it takes. -/
theorem mem_taken_of_le {item other : α} (member : item ∈ items)
    (isTaken : other ∈ taken number count items) (from_ : count ≤ number item)
    (upTo : number item ≤ number other)
    : item ∈ taken number count items := by
  have counts := taken_counts number count items
  have reached := List.mem_map_of_mem (f := number) isTaken
  rw [counts, List.mem_range'_1] at reached
  have passed : number item ∈ (taken number count items).map number := by
    rw [counts, List.mem_range'_1]
    exact ⟨from_, Nat.lt_of_le_of_lt upTo reached.2⟩
  obtain ⟨found, listed, same⟩ := List.mem_map.mp passed
  have apart : (items.map number).Nodup := List.pairwise_map.mpr distinct
  rwa [← List.inj_on_of_nodup_map apart ((taken_sublist ..).subset listed) member same]

/-- A counter that takes all items that are not below its start finds them counted, by
induction on the list.
-/
theorem counts_of_forall_taken
    (all : ∀ item ∈ items, count ≤ number item → item ∈ taken number count items)
    : CountsFrom number count (items.filter (fun item => decide (count ≤ number item))) := by
  induction items generalizing count with
  | nil => exact countsFrom_nil count
  | cons item rest ih =>
      obtain ⟨apart, distinct⟩ := List.pairwise_cons.mp distinct
      by_cases same : number item = count
      · rw [List.filter_cons_of_pos (by simp [same])]
        refine countsFrom_cons.mpr ⟨same, ?_⟩
        have above : rest.filter (fun item => decide (count ≤ number item))
            = rest.filter (fun item => decide (count + 1 ≤ number item)) := by
          apply List.filter_congr
          intro other member
          have ne := apart other member
          rw [decide_eq_decide]
          omega
        rw [above]
        apply ih distinct
        intro other member le
        have isTaken := all other (List.mem_cons_of_mem item member) (Nat.le_of_succ_le le)
        rw [taken_cons_of_eq same] at isTaken
        rcases List.mem_cons.mp isTaken with rfl | later
        · omega
        · exact later
      · rw [taken_cons_of_ne same] at all
        have below : ¬ count ≤ number item := by
          intro le
          have later := all item List.mem_cons_self le
          exact apart item ((taken_sublist ..).subset later) rfl
        rw [List.filter_cons_of_neg (by simpa using below)]
        exact ih distinct (fun other member => all other (List.mem_cons_of_mem item member))

/-- A counter takes all items above its start exactly when those that are not below it are
counted.
-/
theorem forall_taken_iff
    : (∀ item ∈ items, count < number item → item ∈ taken number count items)
      ↔ CountsFrom number count (items.filter (fun item => decide (count ≤ number item))) := by
  constructor
  · intro all
    apply counts_of_forall_taken distinct
    intro item member le
    rcases Nat.eq_or_lt_of_le le with same | above
    · exact mem_taken_of_eq distinct member same.symm
    · exact all item member above
  · intro counts item member above
    rw [counts.taken_eq]
    exact List.mem_filter.mpr ⟨member, by simpa using Nat.le_of_lt above⟩

/-- A counter takes all items above a bound exactly when there are none, or those that are not
below its start are counted and include them.
-/
theorem forall_taken_above_iff (bound : Nat)
    : (∀ item ∈ items, bound < number item → item ∈ taken number count items)
      ↔ ((∃ item ∈ items, bound < number item) →
          CountsFrom number count (items.filter (fun item => decide (count ≤ number item)))
          ∧ ∀ item ∈ items, bound < number item → count ≤ number item) := by
  constructor
  · rintro all ⟨last, inList, aboveBound⟩
    have le (item : α) (member : item ∈ items) (above : bound < number item)
        : count ≤ number item :=
      (taken_counts ..).le (all item member above)
    refine ⟨counts_of_forall_taken distinct ?_, le⟩
    intro item member from_
    by_cases above : bound < number item
    · exact all item member above
    · exact mem_taken_of_le distinct member (all last inList aboveBound) from_ (by omega)
  · intro counted item member above
    obtain ⟨counts, le⟩ := counted ⟨item, member, above⟩
    rw [counts.taken_eq]
    exact List.mem_filter.mpr ⟨member, by simpa using le item member above⟩

end Distinct

end CountedList
