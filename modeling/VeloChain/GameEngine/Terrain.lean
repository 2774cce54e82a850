import Mathlib.Algebra.Order.Floor.Ring
import Mathlib.Data.Nat.Size
import Mathlib.Data.Rat.Floor
import VeloChain.Lib.CallTrace
import VeloChain.Lib.ChunkedGrid
import VeloChain.GameEngine.Ecs

/-! Terrain, generated chunk by chunk.
The noise-based functions of the generator are opaque functions of the seed and a position. A
world position is a whole number held in an `f64`, which is exact far beyond every coordinate.
`none` is a panic, of a position outside a chunk's lists or of a chunk that is missing.
-/

namespace VeloChain

/-- Chunk size in tiles (16x16). -/
def chunkSize : UInt32 := 16

/-- Tile types for the world map. -/
inductive TileType
  | deepWater
  | shallowWater
  | sand
  | grass
  | forest
  | denseForest
  | hills
  | mountain
  | snow
  | swamp
  | desert
  | village
  deriving DecidableEq

/-- Biome types that determine terrain generation patterns. -/
inductive Biome
  | ocean
  | beach
  | plains
  | forest
  | mountains
  | desert
  | swamp
  | tundra
  deriving DecidableEq

namespace TileType

/-- Whether entities can walk on this tile. -/
def isWalkable : TileType → Bool
  | .deepWater | .mountain | .snow => false
  | _ => true

/-- Movement speed multiplier on this tile (1.0 = normal). -/
def movementMultiplier {F : Type} [F32 F] : TileType → F
  | .deepWater | .mountain | .snow => 0.0
  | .shallowWater | .swamp => 0.5
  | .sand | .desert => 0.8
  | .forest => 0.7
  | .denseForest => 0.5
  | .hills => 0.6
  | .grass | .village => 1.0

end TileType

/-- The nearest whole number that an `f64` holds; a tie goes to the even one. -/
def roundToDouble (n : Int) : Int :=
  let excess := n.natAbs.size - 53
  if excess = 0 then n
  else
    let unit := 2 ^ excess
    let lower := n.natAbs / unit
    let rest := n.natAbs % unit
    let rounded :=
      if 2 * rest < unit then lower
      else if unit < 2 * rest then lower + 1
      else lower + lower % 2
    n.sign * (rounded * unit : Nat)

/-- The world coordinate of a local coordinate, computed in `f64`. -/
def worldCoordinate (c : Int32) (l : UInt32) : Int :=
  roundToDouble
    (roundToDouble (roundToDouble c.toInt * roundToDouble chunkSize.toNat)
      + roundToDouble l.toNat)

/-- Euclidean division, as `i32::div_euclid`. -/
def divEuclid (n d : Int32) : Int32 := .ofInt (n.toInt / d.toInt)

/-- The remainder of Euclidean division, as `i32::rem_euclid`. -/
def remEuclid (n d : Int32) : Int32 := .ofInt (n.toInt % d.toInt)

/-- The functions of the terrain generator that rest on noise. Heights are numbers of a type of
their own, from which a rounding leads to the heights that are kept.
-/
structure TerrainNoise (D F : Type) where
  biomeAtChunk : UInt64 → Int32 → Int32 → Biome
  heightAt : UInt64 → Int → Int → D
  tileFromHeightAndBiome : UInt64 → D → Biome → Int → Int → TileType
  toF32 : D → F

/-- A single chunk of the world (16x16 tiles). -/
structure Chunk (F : Type) where
  cx : Int32
  cy : Int32
  tiles : List TileType
  heights : List F
  biome : Biome

variable {D F : Type}

namespace Chunk

/-- Get tile at local coordinates (lx, ly) within the chunk. -/
def getTile (lx ly : UInt32) (chunk : Chunk F) : Option TileType :=
  if lx ≥ chunkSize || ly ≥ chunkSize then some .deepWater
  else chunk.tiles[(ly * chunkSize + lx).toNat]?

/-- Get height at local coordinates. -/
def getHeight [F32 F] (lx ly : UInt32) (chunk : Chunk F) : Option F :=
  if lx ≥ chunkSize || ly ≥ chunkSize then some 0.0
  else chunk.heights[(ly * chunkSize + lx).toNat]?

end Chunk

/-- The local coordinates of a chunk, row by row. -/
def localCoordinates : List (UInt32 × UInt32) :=
  (List.range chunkSize.toNat).flatMap (fun ly : Nat =>
    (List.range chunkSize.toNat).map (fun lx : Nat => (.ofNat lx, .ofNat ly)))

variable (noise : TerrainNoise D F)

/-- Generate a chunk at the given chunk coordinates. -/
def generateChunk (seed : UInt64) (cx cy : Int32) : Chunk F :=
  let biome := noise.biomeAtChunk seed cx cy
  let cells := localCoordinates.map (fun position =>
    let worldX := worldCoordinate cx position.1
    let worldY := worldCoordinate cy position.2
    let height := noise.heightAt seed worldX worldY
    (noise.tileFromHeightAndBiome seed height biome worldX worldY, noise.toF32 height))
  { cx
    cy
    tiles := cells.map Prod.fst
    heights := cells.map Prod.snd
    biome }

/-- World terrain manager that caches generated chunks. -/
structure WorldTerrain (F : Type) where
  seed : UInt64
  chunks : FinMap (Int32 × Int32) (Chunk F)

namespace WorldTerrain

/-- Create a new world terrain with the given seed. -/
def new (seed : UInt64) : WorldTerrain F := { seed, chunks := ∅ }

/-- Get or generate the chunk at the given chunk coordinates. -/
def getChunk (cx cy : Int32) (world : WorldTerrain F) : Option (Chunk F × WorldTerrain F) :=
  let world :=
    if (cx, cy) ∈ world.chunks then world
    else
      { world with chunks := world.chunks.insert (cx, cy) (generateChunk noise world.seed cx cy) }
  (world.chunks.lookup (cx, cy)).map (fun chunk => (chunk, world))

/-- The chunk of a world position, and the local coordinates in it. -/
def withChunkAt {α : Type} (worldX worldY : Int32)
    (read : UInt32 → UInt32 → Chunk F → Option α) (world : WorldTerrain F)
    : Option (α × WorldTerrain F) := do
  let cx := divEuclid worldX chunkSize.toInt32
  let cy := divEuclid worldY chunkSize.toInt32
  let lx := (remEuclid worldX chunkSize.toInt32).toUInt32
  let ly := (remEuclid worldY chunkSize.toInt32).toUInt32
  let (chunk, world) ← getChunk noise cx cy world
  let value ← read lx ly chunk
  some (value, world)

/-- Get the tile at world coordinates (tile-space). -/
def getTileAt (worldX worldY : Int32) (world : WorldTerrain F)
    : Option (TileType × WorldTerrain F) :=
  withChunkAt noise worldX worldY Chunk.getTile world

/-- Generate initial chunks around spawn (load a 5x5 area around origin). -/
def generateSpawnArea (world : WorldTerrain F) : Option (WorldTerrain F) :=
  ([-2, -1, 0, 1, 2] : List Int32).foldlM
    (fun world cy =>
      ([-2, -1, 0, 1, 2] : List Int32).foldlM
        (fun world cx => (getChunk noise cx cy world).map Prod.snd) world)
    world

variable [F32 F]

/-- Get the height at world coordinates. -/
def getHeightAt (worldX worldY : Int32) (world : WorldTerrain F)
    : Option (F × WorldTerrain F) :=
  withChunkAt noise worldX worldY Chunk.getHeight world

variable (floor : F → Int32)

/-- Check if a position is walkable (world float coords). -/
def isWalkable (x y : F) (world : WorldTerrain F) : Option (Bool × WorldTerrain F) :=
  (getTileAt noise (floor x) (floor y) world).map (Prod.map TileType.isWalkable id)

/-- Get movement speed multiplier at position. -/
def movementSpeedAt (x y : F) (world : WorldTerrain F) : Option (F × WorldTerrain F) :=
  (getTileAt noise (floor x) (floor y) world).map (Prod.map TileType.movementMultiplier id)

/-- Get the biome at world float coordinates. -/
def biomeAt (x y : F) (world : WorldTerrain F) : Option (Biome × WorldTerrain F) :=
  let cx := floor (x / F32.ofInt chunkSize.toNat)
  let cy := floor (y / F32.ofInt chunkSize.toNat)
  (getChunk noise cx cy world).map (Prod.map Chunk.biome id)

end WorldTerrain

/-- What can be asked of the terrain. -/
inductive TerrainOp (F : Type)
  | getChunk (cx cy : Int32)
  | getTileAt (worldX worldY : Int32)
  | getHeightAt (worldX worldY : Int32)
  | isWalkable (x y : F)
  | movementSpeedAt (x y : F)
  | biomeAt (x y : F)
  | generateSpawnArea

inductive TerrainReply (F : Type)
  | chunk (chunk : Chunk F)
  | tile (tile : TileType)
  | height (height : F)
  | walkable (isWalkable : Bool)
  | speed (multiplier : F)
  | biome (biome : Biome)
  | done

namespace WorldTerrain

variable [F32 F] (floor : F → Int32)

def perform (world : WorldTerrain F) : TerrainOp F → Option (TerrainReply F × WorldTerrain F)
  | .getChunk cx cy => (getChunk noise cx cy world).map (Prod.map .chunk id)
  | .getTileAt x y => (getTileAt noise x y world).map (Prod.map .tile id)
  | .getHeightAt x y => (getHeightAt noise x y world).map (Prod.map .height id)
  | .isWalkable x y => (isWalkable noise floor x y world).map (Prod.map .walkable id)
  | .movementSpeedAt x y => (movementSpeedAt noise floor x y world).map (Prod.map .speed id)
  | .biomeAt x y => (biomeAt noise floor x y world).map (Prod.map .biome id)
  | .generateSpawnArea => (generateSpawnArea noise world).map (Prod.mk .done)

end WorldTerrain

-----------------------------------------------------------------------------------------
-- Direct evaluation
-----------------------------------------------------------------------------------------

/-- The chunk coordinate of a world coordinate: the quotient, rounded down. -/
def chunkCoordinate (n : Int32) : Int32 := .ofInt ⌊(n.toInt : ℚ) / 16⌋

/-- The height of a world position. -/
def directHeight (seed : UInt64) (x y : Int32) : D := noise.heightAt seed x.toInt y.toInt

/-- The tile of a world position, in the biome of its chunk. -/
def directTile (seed : UInt64) (x y : Int32) : TileType :=
  noise.tileFromHeightAndBiome seed (directHeight noise seed x y)
    (noise.biomeAtChunk seed (chunkCoordinate x) (chunkCoordinate y)) x.toInt y.toInt

namespace WorldTerrain

/-- The terrain answers with what the generator computes for the position, which is never out of
the range of its chunk.
-/
structure AnswersDirectly [F32 F] (seed : UInt64) (world : WorldTerrain F) : Prop where
  within : ∀ n : Int32, (remEuclid n chunkSize.toInt32).toUInt32 < chunkSize
  tile
    : ∀ x y, (getTileAt noise x y world).map Prod.fst = some (directTile noise seed x y)
  height
    : ∀ x y, (getHeightAt noise x y world).map Prod.fst
        = some (noise.toF32 (directHeight noise seed x y))

end WorldTerrain

-----------------------------------------------------------------------------------------
-- Coordinates
-----------------------------------------------------------------------------------------

theorem roundToDouble_of_lt {n : Int} (small : n.natAbs < 2 ^ 53) : roundToDouble n = n := by
  have fits : n.natAbs.size - 53 = 0 := Nat.sub_eq_zero_of_le (Nat.size_le.mpr small)
  rw [roundToDouble, if_pos fits]

/-- No rounding happens on the way to a world coordinate. -/
theorem worldCoordinate_eq (c : Int32) {l : UInt32} (within : l < chunkSize)
    : worldCoordinate c l = c.toInt * 16 + l.toNat := by
  have lower := Int32.le_toInt c
  have upper := Int32.toInt_lt c
  have below : l.toNat < 16 := UInt32.lt_iff_toNat_lt.mp within
  have size : (chunkSize.toNat : Int) = 16 := rfl
  have chunkExact : roundToDouble c.toInt = c.toInt := roundToDouble_of_lt (by omega)
  have sizeExact : roundToDouble 16 = 16 := roundToDouble_of_lt (by omega)
  have localExact : roundToDouble l.toNat = l.toNat := roundToDouble_of_lt (by omega)
  have originExact : roundToDouble (c.toInt * 16) = c.toInt * 16 :=
    roundToDouble_of_lt (by omega)
  rw [worldCoordinate, size, chunkExact, sizeExact, originExact, localExact,
    roundToDouble_of_lt (by omega)]

theorem toInt_divEuclid_chunkSize (n : Int32)
    : (divEuclid n chunkSize.toInt32).toInt = n.toInt / 16 := by
  have lower := Int32.le_toInt n
  have upper := Int32.toInt_lt n
  have size : chunkSize.toInt32.toInt = 16 := rfl
  rw [divEuclid, size]
  exact Int32.toInt_ofInt_of_le (by omega) (by omega)

theorem divEuclid_chunkSize (n : Int32)
    : divEuclid n chunkSize.toInt32 = chunkCoordinate n := by
  have size : chunkSize.toInt32.toInt = 16 := rfl
  rw [divEuclid, chunkCoordinate, size]
  congr 1
  exact (Rat.floor_intCast_div_natCast n.toInt 16).symm

theorem toNat_remEuclid_chunkSize (n : Int32)
    : (remEuclid n chunkSize.toInt32).toUInt32.toNat = (n.toInt % 16).toNat := by
  have size : chunkSize.toInt32.toInt = 16 := rfl
  have exact : (remEuclid n chunkSize.toInt32).toInt = n.toInt % 16 := by
    rw [remEuclid, size]
    exact Int32.toInt_ofInt_of_le (by omega) (by omega)
  have nonneg : 0 ≤ remEuclid n chunkSize.toInt32 := by
    rw [Int32.le_iff_toInt_le, exact]
    exact Int.emod_nonneg n.toInt (by decide)
  rw [Int32.toNat_toUInt32_of_le nonneg, ← Int32.toNat_toInt, exact]

theorem remEuclid_lt_chunkSize (n : Int32)
    : (remEuclid n chunkSize.toInt32).toUInt32 < chunkSize := by
  rw [UInt32.lt_iff_toNat_lt, toNat_remEuclid_chunkSize]
  have size : chunkSize.toNat = 16 := rfl
  omega

-----------------------------------------------------------------------------------------
-- Chunks
-----------------------------------------------------------------------------------------

section Chunks

variable (seed : UInt64) (cx cy : Int32)

/-- What is stored of the cells of a chunk, row by row. -/
theorem map_localCoordinates {α : Type} (cell : Int → Int → α)
    : localCoordinates.map (fun position =>
          cell (worldCoordinate cx position.1) (worldCoordinate cy position.2))
      = ChunkedGrid.cells chunkSize.toNat cell cx.toInt cy.toInt := by
  have exact (c : Int32) {l : Nat} (within : l ∈ List.range chunkSize.toNat)
      : worldCoordinate c (.ofNat l) = c.toInt * chunkSize.toNat + l := by
    have below : l < 16 := List.mem_range.mp within
    have same : (UInt32.ofNat l).toNat = l :=
      UInt32.toNat_ofNat_of_lt' (below.trans (by decide))
    have inChunk : UInt32.ofNat l < chunkSize := by
      rw [UInt32.lt_iff_toNat_lt, same]
      exact below
    rw [worldCoordinate_eq c inChunk, same]
    rfl
  rw [localCoordinates, List.map_flatMap]
  refine List.flatMap_congr (fun ly inColumn => ?_)
  rw [List.map_map]
  refine List.map_congr_left (fun lx inRow => ?_)
  rw [Function.comp_apply, exact cx inRow, exact cy inColumn]

theorem tiles_generateChunk
    : (generateChunk noise seed cx cy).tiles
      = ChunkedGrid.cells chunkSize.toNat
          (fun x y =>
            noise.tileFromHeightAndBiome seed (noise.heightAt seed x y)
              (noise.biomeAtChunk seed cx cy) x y)
          cx.toInt cy.toInt := by
  rw [← map_localCoordinates]
  simp only [generateChunk, List.map_map, Function.comp_def]

theorem heights_generateChunk
    : (generateChunk noise seed cx cy).heights
      = ChunkedGrid.cells chunkSize.toNat
          (fun x y => noise.toF32 (noise.heightAt seed x y)) cx.toInt cy.toInt := by
  rw [← map_localCoordinates]
  simp only [generateChunk, List.map_map, Function.comp_def]

end Chunks

/-- The local coordinates of a world position are in range. -/
theorem outOfRange_eq_false (x y : Int32)
    : (decide ((remEuclid x chunkSize.toInt32).toUInt32 ≥ chunkSize)
        || decide ((remEuclid y chunkSize.toInt32).toUInt32 ≥ chunkSize))
      = false := by
  rw [Bool.or_eq_false_iff, decide_eq_false_iff_not, decide_eq_false_iff_not]
  exact ⟨UInt32.not_le.mpr (remEuclid_lt_chunkSize x), UInt32.not_le.mpr (remEuclid_lt_chunkSize y)⟩

/-- The cell of a world position is read from its chunk, and from no other place. -/
theorem getElem?_cells_world {α : Type} (cell : Int → Int → α) (x y : Int32)
    : (ChunkedGrid.cells chunkSize.toNat cell
          (divEuclid x chunkSize.toInt32).toInt
          (divEuclid y chunkSize.toInt32).toInt)[((remEuclid y chunkSize.toInt32).toUInt32
            * chunkSize + (remEuclid x chunkSize.toInt32).toUInt32).toNat]?
      = some (cell x.toInt y.toInt) := by
  have size : chunkSize.toNat = 16 := rfl
  have place
      : ((remEuclid y chunkSize.toInt32).toUInt32 * chunkSize
          + (remEuclid x chunkSize.toInt32).toUInt32).toNat
        = (y.toInt % 16).toNat * 16 + (x.toInt % 16).toNat := by
    rw [UInt32.toNat_add, UInt32.toNat_mul, toNat_remEuclid_chunkSize, toNat_remEuclid_chunkSize,
      size]
    omega
  rw [place, toInt_divEuclid_chunkSize, toInt_divEuclid_chunkSize]
  exact ChunkedGrid.getElem?_cells (by decide) cell x.toInt y.toInt

-----------------------------------------------------------------------------------------
-- Every history of queries
-----------------------------------------------------------------------------------------

namespace WorldTerrain

/-- The terrain of this seed, whose cached chunks are those that the generator computes. -/
def Generated (seed : UInt64) (world : WorldTerrain F) : Prop :=
  world.seed = seed
  ∧ ChunkedGrid.Remembers (fun key => generateChunk noise seed key.1 key.2) world.chunks

variable {noise} {seed : UInt64} {world : WorldTerrain F}

theorem getChunk_of_generated (generated : Generated noise seed world) (cx cy : Int32)
    : ∃ next,
        getChunk noise cx cy world = some (generateChunk noise seed cx cy, next)
        ∧ Generated noise seed next := by
  obtain ⟨rfl, remembers⟩ := generated
  refine ⟨
    { world with
      chunks :=
        ChunkedGrid.remember (fun key => generateChunk noise world.seed key.1 key.2) (cx, cy)
          world.chunks },
    ?_, rfl, ChunkedGrid.remembers_remember remembers (cx, cy)⟩
  have found := ChunkedGrid.lookup_remember remembers (cx, cy)
  unfold ChunkedGrid.remember at found ⊢
  unfold getChunk
  split
  next known =>
    rw [if_pos known] at found
    simp only [found]
    rfl
  next unknown =>
    rw [if_neg unknown] at found
    simp only [found]
    rfl

/-- A position is read from its chunk as the generator computes it. -/
theorem withChunkAt_of_generated {α : Type} (generated : Generated noise seed world)
    (x y : Int32) {read : UInt32 → UInt32 → Chunk F → Option α} {value : α}
    (reads
      : read (remEuclid x chunkSize.toInt32).toUInt32 (remEuclid y chunkSize.toInt32).toUInt32
            (generateChunk noise seed (divEuclid x chunkSize.toInt32)
              (divEuclid y chunkSize.toInt32))
        = some value)
    : ∃ next,
        withChunkAt noise x y read world = some (value, next)
        ∧ Generated noise seed next := by
  obtain ⟨next, found, kept⟩ :=
    getChunk_of_generated generated (divEuclid x chunkSize.toInt32)
      (divEuclid y chunkSize.toInt32)
  refine ⟨next, ?_, kept⟩
  simp only [withChunkAt, found, Option.bind_eq_bind, Option.bind_some, reads]

theorem getTileAt_of_generated (generated : Generated noise seed world) (x y : Int32)
    : ∃ next,
        getTileAt noise x y world = some (directTile noise seed x y, next)
        ∧ Generated noise seed next := by
  refine withChunkAt_of_generated generated x y ?_
  rw [Chunk.getTile, outOfRange_eq_false, if_neg Bool.false_ne_true, tiles_generateChunk,
    getElem?_cells_world]
  simp only [directTile, directHeight, divEuclid_chunkSize]

theorem getHeightAt_of_generated [F32 F] (generated : Generated noise seed world) (x y : Int32)
    : ∃ next,
        getHeightAt noise x y world = some (noise.toF32 (directHeight noise seed x y), next)
        ∧ Generated noise seed next := by
  refine withChunkAt_of_generated generated x y ?_
  rw [Chunk.getHeight, outOfRange_eq_false, if_neg Bool.false_ne_true, heights_generateChunk,
    getElem?_cells_world]
  rfl

/-- Walking over positions, each step of which keeps the terrain generated. -/
theorem foldlM_of_generated {α : Type} {step : WorldTerrain F → α → Option (WorldTerrain F)}
    (steps
      : ∀ world position, Generated noise seed world →
          ∃ next, step world position = some next ∧ Generated noise seed next)
    (positions : List α) (generated : Generated noise seed world)
    : ∃ next, positions.foldlM step world = some next ∧ Generated noise seed next := by
  induction positions generalizing world with
  | nil => exact ⟨world, rfl, generated⟩
  | cons position rest ih =>
      obtain ⟨next, done, kept⟩ := steps world position generated
      rw [List.foldlM_cons, done]
      exact ih kept

theorem generateSpawnArea_of_generated (generated : Generated noise seed world)
    : ∃ next, generateSpawnArea noise world = some next ∧ Generated noise seed next := by
  refine foldlM_of_generated (fun world cy generated => ?_) _ generated
  refine foldlM_of_generated (fun world cx generated => ?_) _ generated
  obtain ⟨next, found, kept⟩ := getChunk_of_generated generated cx cy
  exact ⟨next, by rw [found]; rfl, kept⟩

/-- Every query returns and keeps the cached chunks those of the generator. -/
theorem perform_of_generated [F32 F] (floor : F → Int32) (op : TerrainOp F)
    (generated : Generated noise seed world)
    : ∃ reply next,
        perform noise floor world op = some (reply, next) ∧ Generated noise seed next := by
  cases op with
  | getChunk cx cy =>
      obtain ⟨next, found, kept⟩ := getChunk_of_generated generated cx cy
      exact ⟨_, next, by rw [perform, found]; rfl, kept⟩
  | getTileAt x y =>
      obtain ⟨next, found, kept⟩ := getTileAt_of_generated generated x y
      exact ⟨_, next, by rw [perform, found]; rfl, kept⟩
  | getHeightAt x y =>
      obtain ⟨next, found, kept⟩ := getHeightAt_of_generated generated x y
      exact ⟨_, next, by rw [perform, found]; rfl, kept⟩
  | isWalkable x y =>
      obtain ⟨next, found, kept⟩ := getTileAt_of_generated generated (floor x) (floor y)
      exact ⟨_, next, by rw [perform, isWalkable, found]; rfl, kept⟩
  | movementSpeedAt x y =>
      obtain ⟨next, found, kept⟩ := getTileAt_of_generated generated (floor x) (floor y)
      exact ⟨_, next, by rw [perform, movementSpeedAt, found]; rfl, kept⟩
  | biomeAt x y =>
      obtain ⟨next, found, kept⟩ :=
        getChunk_of_generated generated (floor (x / F32.ofInt chunkSize.toNat))
          (floor (y / F32.ofInt chunkSize.toNat))
      exact ⟨_, next, by rw [perform, biomeAt, found]; rfl, kept⟩
  | generateSpawnArea =>
      obtain ⟨next, found, kept⟩ := generateSpawnArea_of_generated generated
      exact ⟨_, next, by rw [perform, found]; rfl, kept⟩

theorem answersDirectly_of_generated [F32 F] (generated : Generated noise seed world)
    : AnswersDirectly noise seed world where
  within := remEuclid_lt_chunkSize
  tile x y := by
    obtain ⟨next, answer, -⟩ := getTileAt_of_generated generated x y
    rw [answer]
    rfl
  height x y := by
    obtain ⟨next, answer, -⟩ := getHeightAt_of_generated generated x y
    rw [answer]
    rfl

/-- After any queries, all of which return, the terrain answers with what the generator computes
for the position. The cached chunks are those of the generator throughout.
-/
theorem terrainLookup_run [F32 F] (noise : TerrainNoise D F) (floor : F → Int32) (seed : UInt64)
    (ops : List (TerrainOp F))
    : (CallTrace.calls (fun op world => perform noise floor world op) ops (new seed)).length
        = ops.length
      ∧ AnswersDirectly noise seed
          (CallTrace.final (fun op world => perform noise floor world op) ops (new seed)) := by
  have start : Generated noise seed (new seed) := ⟨rfl, ChunkedGrid.remembers_empty⟩
  constructor
  · exact CallTrace.length_calls (Generated noise seed)
      (fun op world generated => perform_of_generated floor op generated) start
  · refine answersDirectly_of_generated (CallTrace.final_invariant _ ?_ start)
    intro op world reply next generated performed
    obtain ⟨reply', next', performed', kept⟩ := perform_of_generated floor op generated
    obtain ⟨-, rfl⟩ := Prod.mk.inj (Option.some.inj (performed.symm.trans performed'))
    exact kept

end WorldTerrain

end VeloChain
