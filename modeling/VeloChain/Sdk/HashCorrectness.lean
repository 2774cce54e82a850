import VeloChain.Sdk.Keccak256

/-! The hash function of the client SDK is Keccak with an output of 256 bits. -/

namespace VeloChain

namespace Sdk

open IndependentUpdates

-----------------------------------------------------------------------------------------
-- Words
-----------------------------------------------------------------------------------------

theorem rot64_mod (x n : Nat) : rot64 x n = ((x <<< n) ||| (x >>> (64 - n))) % 2 ^ 64 :=
  Nat.and_two_pow_sub_one_eq_mod _ 64

theorem rot64_lt (x n : Nat) : rot64 x n < 2 ^ 64 := by
  rw [rot64_mod]
  exact Nat.mod_lt _ (by decide)

/-- The mask cuts what the shift to the left moves out of the word. -/
theorem toBitVec_rot64 (word : UInt64) {n : Nat} (small : n < 64)
    : (UInt64.ofNat (rot64 word.toNat n)).toBitVec = word.toBitVec.rotateLeft n := by
  have below : word.toNat >>> (64 - n) < 2 ^ 64 :=
    Nat.lt_of_le_of_lt (Nat.shiftRight_le _ _) word.toNat_lt
  apply BitVec.eq_of_toNat_eq
  rw [UInt64.toNat_toBitVec, UInt64.toNat_ofNat_of_lt' (rot64_lt _ _), rot64_mod,
    Nat.or_mod_two_pow, Nat.mod_eq_of_lt below, BitVec.rotateLeft_def, Nat.mod_eq_of_lt small,
    BitVec.toNat_or, BitVec.toNat_shiftLeft, BitVec.toNat_ushiftRight, UInt64.toNat_toBitVec]

theorem ofInt_toNat (word : UInt64) : UInt64.ofInt word.toNat = word := by
  have small : (word.toNat : Int) % 2 ^ 64 = word.toNat :=
    Int.emod_eq_of_lt (Int.natCast_nonneg _) (by exact_mod_cast word.toNat_lt)
  rw [UInt64.ofInt, small, Int.toNat_natCast, UInt64.ofNat_toNat]

theorem toNat_not_and (b c : UInt64) : Nat.ldiff c.toNat b.toNat = (~~~ b &&& c).toNat := by
  apply Nat.eq_of_testBit_eq
  intro i
  rw [Nat.testBit_ldiff]
  simp only [← UInt64.toNat_toBitVec, BitVec.testBit_toNat, UInt64.toBitVec_and,
    UInt64.toBitVec_not, BitVec.getLsbD_and, BitVec.getLsbD_not]
  by_cases inside : i < 64
  · simp [inside, Bool.and_comm]
  · simp [inside, BitVec.getLsbD_of_ge c.toBitVec i (by omega)]

/-- The complement of a big integer, once it is masked by a word, is that of the word. -/
theorem ofInt_chi (a b c : UInt64)
    : UInt64.ofInt (Int.xor a.toNat (Int.land (Int.lnot b.toNat) c.toNat))
      = a ^^^ (~~~ b &&& c) := by
  have natural : Int.xor a.toNat (Int.land (Int.lnot b.toNat) c.toNat)
      = ((a.toNat ^^^ Nat.ldiff c.toNat b.toNat : Nat) : Int) := rfl
  rw [natural, toNat_not_and, ← UInt64.toNat_xor, ofInt_toNat]

-----------------------------------------------------------------------------------------
-- The step mappings
-----------------------------------------------------------------------------------------

theorem lanes_iota (rc : UInt64) (state : KeccakState)
    : lanes (iota rc state) = Keccak.iota rc.toBitVec (lanes state) := by
  funext x y
  rw [iota, lanes_set, Keccak.iota]
  by_cases origin : x = 0 ∧ y = 0
  · obtain ⟨rfl, rfl⟩ := origin
    rfl
  · rw [if_neg origin, if_neg (fun equal => origin ⟨equal.1.symm, equal.2.symm⟩)]

theorem lanes_theta (state : KeccakState) : lanes (theta state) = Keccak.theta (lanes state) := by
  funext x y
  have before : x + 4 = x - 1 := by revert x; decide
  unfold lanes theta
  rw [foldl_columns]
  simp only [Fin.getElem_fin, Vector.getElem_ofFn, Fin.eta, before]
  rw [UInt64.toBitVec_xor, UInt64.ofNat_xor, UInt64.ofNat_toNat, UInt64.toBitVec_xor,
    toBitVec_rot64 _ (by decide)]
  rfl

/-- Each turn of the outer loop updates one row, from a copy of this row. -/
theorem lanes_chi (state : KeccakState) : lanes (chi state) = Keccak.chi (lanes state) := by
  let row (state : KeccakState) (y : Fin 5) : KeccakState :=
    let t : Vector UInt64 5 := .ofFn (fun x => state[index x y])
    (List.finRange 5).foldl
      (updateAt (fun x => index x y) (fun x _ =>
        UInt64.ofInt
          (Int.xor t[x].toNat (Int.land (Int.lnot t[x + 1].toNat) t[x + 2].toNat))))
      state
  have own (state : KeccakState) (y : Fin 5)
      : (fun x => (row state y)[index x y])
        = fun x =>
            state[index x y] ^^^ (~~~ state[index (x + 1) y] &&& state[index (x + 2) y]) := by
    funext x
    have inj : (fun x => index x y).Injective := fun x x' same => (index_injective.mp same).1
    have written := foldl_updateAt inj
      (fun x _ =>
        let t : Vector UInt64 5 := .ofFn (fun x => state[index x y])
        UInt64.ofInt
          (Int.xor t[x].toNat (Int.land (Int.lnot t[x + 1].toNat) t[x + 2].toNat)))
      (List.nodup_finRange 5) state (List.mem_finRange x)
    refine written.trans ?_
    simp only [ofInt_chi, Fin.getElem_fin, Vector.getElem_ofFn, Fin.eta]
  have other (state : KeccakState) (y y' : Fin 5) (different : y ≠ y')
      : (fun x => (row state y)[index x y']) = fun x => state[index x y'] := by
    funext x
    exact foldl_updateAt_frame _ state
      (fun _ _ same => different (index_injective.mp same).2)
  have rows (y : Fin 5) :=
    @foldl_view _ _ _ _ row (fun state y x => state[index x y])
      (fun _ words x => words x ^^^ (~~~ words (x + 1) &&& words (x + 2))) own other _
      (List.nodup_finRange 5) state y (List.mem_finRange y)
  funext x y
  exact congrArg UInt64.toBitVec (congrFun (rows y) x)

/-- The place of a step of the walk. -/
def place (t : Nat) : Fin 25 := index (Keccak.walk t).1 (Keccak.walk t).2

/-- The step of the walk that rotates the word from place `t` into place `t + 1`. -/
def rotation (t : Nat) : Fin 25 × (UInt64 → UInt64) :=
  (place (t + 1), fun word => UInt64.ofNat (rot64 word.toNat ((t + 1) * (t + 2) / 2 % 64)))

/-- The tables list the places and offsets of the walk. -/
theorem zip_tables
    : PI.zip ROTC
      = (List.range 24).map (fun t => (place (t + 1), (t + 1) * (t + 2) / 2 % 64)) := by
  decide

theorem rhoPi_eq (state : KeccakState)
    : rhoPi state
      = (((List.range 24).map rotation).foldl carry (state, state[place 0])).1 := by
  rw [rhoPi, zip_tables, List.foldl_map, List.foldl_map]
  rfl

theorem nodup_places : (((List.range 24).map rotation).map Prod.fst).Nodup := by
  rw [List.map_map]
  decide

/-- The walk rotates the word of each place into the next place. -/
theorem rhoPi_place (state : KeccakState) {t : Nat} (inside : t < 24)
    : (rhoPi state)[place (t + 1)] = (rotation t).2 state[place t] := by
  rw [rhoPi_eq]
  have nodup := nodup_places
  cases t with
  | zero =>
      have split : List.range 24 = 0 :: List.range' 1 23 := by decide
      rw [split, List.map_cons] at nodup ⊢
      exact carry_first (rotation 0) _ (state, state[place 0]) nodup
  | succ t =>
      have split : ∀ t < 23,
          List.range 24 = List.range t ++ t :: (t + 1) :: List.range' (t + 2) (22 - t) := by
        decide
      rw [split t (Nat.lt_of_succ_lt_succ inside), List.map_append, List.map_cons,
        List.map_cons] at nodup ⊢
      exact carry_next _ _ (rotation t) (rotation (t + 1)) (state, state[place 0]) nodup

theorem lanes_rhoPi (state : KeccakState)
    : lanes (rhoPi state) = Keccak.pi (Keccak.rho (lanes state)) := by
  funext x y
  by_cases origin : (x, y) = (0, 0)
  · obtain ⟨rfl, rfl⟩ := Prod.mk.inj origin
    have unvisited : index 0 0 ∉ ((List.range 24).map rotation).map Prod.fst := by
      rw [List.map_map]
      decide
    have kept := carry_frame _ (state, state[place 0]) unvisited
    rw [← rhoPi_eq] at kept
    have still : Keccak.offset 0 0 = 0 := by decide
    unfold lanes
    rw [kept]
    simp [Keccak.pi, Keccak.rho, still, BitVec.rotateLeft_def, BitVec.ushiftRight_eq_zero]
  · obtain ⟨t, inside, reached⟩ := Keccak.walk_covers x y origin
    obtain rfl : (Keccak.walk (t + 1)).1 = x := congrArg Prod.fst reached
    obtain rfl : (Keccak.walk (t + 1)).2 = y := congrArg Prod.snd reached
    have moved := congrArg UInt64.toBitVec (rhoPi_place state inside)
    rw [Keccak.pi_rho_walk, Keccak.rho, Keccak.offset_walk t inside]
    refine moved.trans ((toBitVec_rot64 _ (Nat.mod_lt _ (by decide))).trans ?_)
    exact BitVec.rotateLeft_mod_eq_rotateLeft

-----------------------------------------------------------------------------------------
-- The permutation
-----------------------------------------------------------------------------------------

theorem RC_eq : RC.map UInt64.toBitVec = (List.range 24).map Keccak.roundConstant := by
  decide

theorem lanes_keccakF (state : KeccakState)
    : lanes (keccakF state) = Keccak.permute (lanes state) := by
  have rounds (constants : List UInt64) (state : KeccakState)
      : lanes (constants.foldl (fun state rc => iota rc (chi (rhoPi (theta state)))) state)
        = (constants.map UInt64.toBitVec).foldl (fun a rc => Keccak.round rc a)
            (lanes state) := by
    induction constants generalizing state with
    | nil => rfl
    | cons rc rest ih =>
        rw [List.foldl_cons, ih, lanes_iota, lanes_chi, lanes_rhoPi, lanes_theta]
        rfl
  rw [keccakF, rounds, RC_eq, List.foldl_map]
  rfl

-----------------------------------------------------------------------------------------
-- The sponge
-----------------------------------------------------------------------------------------

theorem modify_append (left right : Bytes) (k : Nat) (f : UInt8 → UInt8)
    : (left ++ right).modify (left.length + k) f = left ++ right.modify k f := by
  induction left with
  | nil => rw [List.nil_append, List.length_nil, Nat.zero_add, List.nil_append]
  | cons byte rest ih =>
      rw [List.cons_append, List.length_cons, Nat.add_right_comm, List.modify_succ_cons, ih,
        List.cons_append]

/-- The last zero becomes the byte of the last bit. -/
theorem modify_last (zeros : Nat)
    : (0x01 :: List.replicate zeros 0 : Bytes).modify zeros (· ||| 0x80)
      = Keccak.padding 0x01 (zeros + 1) := by
  cases zeros with
  | zero => rfl
  | succ zeros =>
      have final := modify_append (List.replicate zeros 0) [0] 0 (· ||| 0x80)
      rw [List.length_replicate, Nat.add_zero] at final
      rw [List.modify_succ_cons, List.replicate_succ', final, Keccak.padding]
      rfl

/-- The two padding bits are written into the zeros, into one byte if there is only one. -/
theorem padded_eq (data : Bytes) : padded data = Keccak.pad 0x01 rate data := by
  have below : data.length % 136 < 136 := Nat.mod_lt _ (by decide)
  have split := Nat.div_add_mod data.length 136
  obtain ⟨zeros, count⟩ : ∃ zeros, 136 - data.length % 136 = zeros + 1 :=
    ⟨135 - data.length % 136, by omega⟩
  have total : (data.length + 1 + (rate - 1)) / rate * rate = data.length + (zeros + 1) := by
    simp only [rate]
    omega
  have room : data.length + (zeros + 1) - data.length = zeros + 1 := by omega
  rw [Keccak.pad, rate, count, padded]
  simp only [total, room, List.replicate_succ]
  rw [List.set_append_right _ _ (Nat.le_refl _), Nat.sub_self, List.set_cons_zero,
    ← Nat.add_assoc, Nat.add_sub_cancel, modify_append, modify_last]

/-- The bytes are put together in the order of their weights. -/
theorem foldl_word (padded : Bytes) (offset : Nat) {count : Nat}
    (inside : offset + count ≤ padded.length)
    : (List.range count).foldl
        (fun word j => word ||| ((padded[offset + j]?.getD 0).toNat <<< (j * 8)))
        0
      = Bytes.toNat ((padded.drop offset).take count).reverse := by
  induction count with
  | zero => rfl
  | succ count ih =>
      have here : offset + count < padded.length := by omega
      have length : ((padded.drop offset).take count).reverse.length = count := by
        rw [List.length_reverse, List.length_take, List.length_drop]
        omega
      have below := Bytes.toNat_lt ((padded.drop offset).take count).reverse
      have power : (256 : Nat) ^ count = 2 ^ (count * 8) := by
        rw [Nat.mul_comm, Nat.pow_mul]
      rw [length, power] at below
      rw [List.range_succ, List.foldl_append, ih (by omega), List.foldl_cons, List.foldl_nil,
        List.take_add_one, List.getElem?_drop, List.getElem?_eq_getElem here, Option.toList_some,
        List.reverse_append, List.reverse_singleton, List.singleton_append, Bytes.toNat_cons,
        length, power, Option.getD_some, Nat.or_comm, ← Nat.shiftLeft_add_eq_or_of_lt below,
        Nat.shiftLeft_eq]

/-- The words of a block are its lanes. -/
theorem toBitVec_word (padded : Bytes) (offset : Nat) (inside : offset + 8 ≤ padded.length)
    : (UInt64.ofNat (word padded offset)).toBitVec
      = Keccak.lane ((padded.drop offset).take 8) := by
  rw [word, foldl_word padded offset inside]
  rfl

theorem take_drop_block (padded : Bytes) (offset : Nat) {k : Nat} (within : k < 17)
    : (((padded.drop offset).take rate).drop (8 * k)).take 8
      = (padded.drop (offset + k * 8)).take 8 := by
  have room : min 8 (rate - 8 * k) = 8 := by
    simp only [rate]
    omega
  rw [List.drop_take, List.take_take, List.drop_drop, room, Nat.mul_comm]

/-- A block has no bytes for the lanes behind it. -/
theorem lane_behind (padded : Bytes) (offset : Nat) {k : Nat} (behind : ¬ k < 17)
    : Keccak.lane ((((padded.drop offset).take rate).drop (8 * k)).take 8) = 0 := by
  have short : ((padded.drop offset).take rate).length ≤ 8 * k := by
    rw [List.length_take]
    simp only [rate]
    omega
  rw [List.drop_eq_nil_of_le short]
  rfl

/-- The word `i` of a block belongs to lane `i`, and the other lanes are left alone. -/
theorem lanes_absorb (padded : Bytes) (offset : Nat) (inside : offset + rate ≤ padded.length)
    (state : KeccakState)
    : lanes (absorb padded offset state)
      = Keccak.absorb (lanes state) ((padded.drop offset).take rate) := by
  let update (i : Fin 17) (old : UInt64) : UInt64 :=
    UInt64.ofNat (old.toNat ^^^ word padded (offset + i * 8))
  let place (i : Fin 17) : Fin 25 := i.castLE (by decide)
  have inj : place.Injective := Fin.castLE_injective _
  have loop : absorb padded offset state
      = (List.finRange 17).foldl (updateAt place update) state := rfl
  funext x y
  unfold Keccak.absorb lanes
  by_cases within : x.val + 5 * y.val < 17
  · let i : Fin 17 := ⟨x.val + 5 * y.val, within⟩
    have here : place i = index x y := Fin.ext (by simp [place, i, index, Nat.mul_comm])
    have last : offset + i * 8 + 8 ≤ padded.length := by
      simp only [rate, i] at inside ⊢
      omega
    have written :=
      foldl_updateAt inj update (List.nodup_finRange 17) state (List.mem_finRange i)
    rw [take_drop_block padded offset within, ← toBitVec_word padded _ last, loop]
    simp only [← here]
    rw [written]
    simp only [update, UInt64.ofNat_xor, UInt64.ofNat_toNat, UInt64.toBitVec_xor]
  · have untouched (i : Fin 17) (_ : i ∈ List.finRange 17) : place i ≠ index x y := by
      intro same
      have value : i.val = x.val + y.val * 5 := congrArg Fin.val same
      omega
    rw [lane_behind padded offset within, loop, foldl_updateAt_frame update state untouched]
    exact (BitVec.xor_zero).symm

/-- The loop absorbs one block after the other, by induction on the blocks left. -/
theorem lanes_absorbFrom (padded : Bytes) (first left : Nat) (state : KeccakState)
    (whole : padded.length = rate * (first + left))
    : lanes (absorbFrom padded (rate * first) state)
      = ((List.range' first left).map
            (fun k => (padded.drop (rate * k)).take rate)).foldl
          (fun a block => Keccak.permute (Keccak.absorb a block)) (lanes state) := by
  induction left generalizing first state with
  | zero =>
      have finished : ¬ rate * first < padded.length := by
        rw [whole, Nat.add_zero]
        exact Nat.lt_irrefl _
      rw [absorbFrom, if_neg finished]
      rfl
  | succ left ih =>
      have total : padded.length = rate * (first + 1 + left) := by
        rw [whole, Nat.add_right_comm, Nat.add_assoc]
      have inside : rate * first + rate ≤ padded.length := by
        rw [total, ← Nat.mul_succ]
        exact Nat.mul_le_mul_left rate (Nat.le_add_right _ _)
      have more : rate * first < padded.length :=
        Nat.lt_of_lt_of_le (Nat.lt_add_of_pos_right (by decide)) inside
      rw [absorbFrom, if_pos more, ← Nat.mul_succ, ih (first + 1) _ total, lanes_keccakF,
        lanes_absorb padded _ inside, List.range'_succ]
      rfl

/-- The bytes of a word, the lowest first. -/
theorem word_bytes (word : UInt64) (count : Nat)
    : (List.range count).map (fun j => UInt8.ofNat ((word.toNat >>> (j * 8)) &&& 0xff))
      = Bytes.littleEndian count word.toNat := by
  induction count with
  | zero => rfl
  | succ count ih =>
      have power : (256 : Nat) ^ count = 2 ^ (count * 8) := by
        rw [Nat.mul_comm, Nat.pow_mul]
      have masked (n : Nat) : UInt8.ofNat (n &&& 0xff) = UInt8.ofNat n := by
        apply UInt8.toNat_inj.mp
        rw [UInt8.toNat_ofNat', UInt8.toNat_ofNat', Nat.and_two_pow_sub_one_eq_mod _ 8,
          Nat.mod_mod]
      rw [List.range_succ, List.map_append, ih, Bytes.littleEndian_succ, List.map_singleton,
        masked, Nat.shiftRight_eq_div_pow, power]

/-- The output is the first four lanes of the first row. -/
theorem squeeze_eq (state : KeccakState) : squeeze state = Keccak.squeeze 32 (lanes state) := by
  have rows (f : Fin 5 → Bytes)
      : (List.finRange 5).flatMap f = f 0 ++ [1, 2, 3, 4].flatMap f := rfl
  have columns : List.finRange 5 = (List.finRange 4).map Fin.castSucc ++ [4] := by decide
  have words : squeeze state
      = (List.finRange 4).flatMap (fun i =>
          Bytes.littleEndian 8 (lanes state i.castSucc 0).toNat) :=
    List.flatMap_congr (fun i _ => word_bytes state[i] 8)
  have first : (List.finRange 5).flatMap (fun x => Bytes.littleEndian 8 (lanes state x 0).toNat)
      = squeeze state ++ Bytes.littleEndian 8 (lanes state 4 0).toNat := by
    rw [columns, List.flatMap_append, List.flatMap_map, words, List.flatMap_singleton]
  have length : (squeeze state).length = 32 := by
    simp [words, List.length_flatMap, Bytes.littleEndian]
  rw [Keccak.squeeze, rows, first, List.append_assoc, List.take_left' length]

/-- The hash function of the client SDK is the one specified, for every byte string. -/
theorem keccak256_eq (data : Bytes) : keccak256 data = Keccak.keccak256 data := by
  have whole := Keccak.length_pad 0x01 (by decide : 0 < rate) data
  have blocks : (Keccak.pad 0x01 rate data).length / rate = data.length / rate + 1 := by
    rw [whole, Nat.mul_div_cancel_left _ (by decide)]
  have zero : lanes (.replicate 25 0) = fun _ _ => 0 := by
    funext x y
    simp [lanes]
  have absorbed :=
    lanes_absorbFrom (Keccak.pad 0x01 rate data) 0 (data.length / rate + 1) (.replicate 25 0)
      (by rw [whole, Nat.zero_add])
  rw [Nat.mul_zero, zero, ← blocks, ← List.range_eq_range'] at absorbed
  rw [keccak256, padded_eq, squeeze_eq, absorbed]
  rfl

end Sdk

end VeloChain
