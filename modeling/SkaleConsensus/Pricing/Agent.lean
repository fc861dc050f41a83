import SkaleConsensus.Db.CacheLevelDB
import SkaleConsensus.Network.Io

/-! The price of a block.

`DynamicPricingStrategy` moves the price of the block before by a share that grows with the
distance of the load from its optimum, and cuts the result to its bounds. The arithmetic is
that of 256-bit words. `PricingAgent` installs the configured parameters, reads the previous
price from the price database and saves the new one.

Two things go wrong. The constructor installs the negated maximum, which is `2^64` less the
configured one; and a share of more than the whole price makes the subtraction wrap, so that
the price of an empty block is the largest there is. `sound_iff_contained` says exactly which
steps these spoil. -/
namespace SkaleConsensus.Pricing
open Library Db Network CacheLevelDB

/-- `u256`, whose arithmetic is unchecked. -/
abbrev U256 := BitVec 256

/-- A `uint64_t` as a `u256`. -/
def u256 (x : UInt64) : U256 := x.toBitVec.setWidth 256

def DEFAULT_MIN_PRICE : UInt64 := 100000

/-! ### Strategies -/

structure DynamicPricingStrategy where
  minPrice : U256
  maxPrice : U256
  optimalLoadPercentage : UInt32
  adjustmentSpeed : UInt32

/-- The load of a block of `size` transactions. -/
def loadPercentage (size : UInt64) : UInt64 := size * 100 / UInt64.ofNat MAX_TRANSACTIONS_PER_BLOCK

def DynamicPricingStrategy.calculatePrice (s : DynamicPricingStrategy) (previousPrice : U256)
    (size : UInt64) : U256 :=
  let load := loadPercentage size
  let optimal := s.optimalLoadPercentage.toUInt64
  let speed := u256 s.adjustmentSpeed.toUInt64
  let price :=
    if load < optimal then
      previousPrice - speed * previousPrice * u256 (optimal - load) / 1000000
    else previousPrice + speed * previousPrice * u256 (load - optimal) / 1000000
  let price := if price < s.minPrice then s.minPrice else price
  if s.maxPrice < price then s.maxPrice else price

inductive PricingStrategy where
  | dynamic (s : DynamicPricingStrategy)
  | zero

def PricingStrategy.calculatePrice : PricingStrategy → U256 → UInt64 → U256
  | .dynamic s, previousPrice, size => s.calculatePrice previousPrice size
  | .zero, _, _ => 0

/-! ### The agent -/

/-- The parameters of the node, from its environment or its configuration. -/
structure Params where
  strings : String → Option String
  numbers : String → Option UInt64

namespace Params
variable (node : Params)

def getParamString (name default : String) : String := (node.strings name).getD default

def getParamUint64 (name : String) (default : UInt64) : UInt64 := (node.numbers name).getD default

def minPrice : UInt64 := node.getParamUint64 "DYNAMIC_PRICING_MIN_PRICE" DEFAULT_MIN_PRICE
def maxPrice : UInt64 := node.getParamUint64 "DYNAMIC_PRICING_MAX_PRICE" 1000000000
def optimalLoadPercentage : UInt64 :=
  node.getParamUint64 "DYNAMIC_PRICING_OPTIMAL_LOAD_PERCENTAGE" 70
def adjustmentSpeed : UInt64 := node.getParamUint64 "DYNAMIC_PRICING_ADJUSTMENT_SPEED" 1000
def startPrice : UInt64 := node.getParamUint64 "DYNAMIC_PRICING_START_PRICE" DEFAULT_MIN_PRICE

/-- The strategy of `PricingAgent::PricingAgent`; the percentage and the speed are cut to 32 bits,
and the maximum is negated. -/
def dynamicStrategy : DynamicPricingStrategy where
  minPrice := u256 node.minPrice
  maxPrice := u256 (-node.maxPrice)
  optimalLoadPercentage := node.optimalLoadPercentage.toUInt32
  adjustmentSpeed := node.adjustmentSpeed.toUInt32

def pricingStrategy : Except String PricingStrategy := do
  let strategy := node.getParamString "pricingStrategy" "DYNAMIC"
  checkState (!strategy.isEmpty) "!strategy.empty()"
  if strategy = "DYNAMIC" then return .dynamic node.dynamicStrategy
  else if strategy = "ZERO" then return .zero
  else throw ("Unknown pricing strategy: " ++ strategy)

end Params

/-- `u256( text )` for the digits that `str` writes. -/
def u256OfText (text : Bytes) : Except String U256 :=
  if text.all isDigit then pure (BitVec.ofNat 256 (decimalValue text))
  else throw "Unexpected content found while parsing character string."

def priceKey (blockID : ℕ) : Bytes := createKey (textBytes "1.0") [blockID]

/-- `PriceDB::readPrice`. -/
def readPrice (node : Params) (blockID : ℕ) (db : CacheLevelDB) : Except String U256 :=
  if blockID ≤ 1 then pure (u256 node.startPrice)
  else
    let price := db.readString (priceKey blockID)
    (if price.isEmpty then throw ("Price for block " ++ toString blockID ++ " is unknown")
      else u256OfText price).mapError fun _ => "readPrice"

/-- `PriceDB::savePrice`; `full` says whether the newest database is. -/
def savePrice (full : Bool) (price : U256) (blockID : ℕ) (db : CacheLevelDB) : CacheLevelDB :=
  db.writeString full (priceKey blockID) (decimalText price.toNat) false

/-- `PricingAgent::calculatePrice`: the price and the database it is saved in. -/
def calculatePrice (node : Params) (strategy : PricingStrategy) (full : Bool) (size : UInt64)
    (blockID : ℕ) (db : CacheLevelDB) : Except String (U256 × CacheLevelDB) :=
  (do
    let price ← if blockID ≤ 1 then pure (u256 node.startPrice)
      else do
        let oldPrice ← readPrice node (blockID - 1) db
        pure (strategy.calculatePrice oldPrice size)
    return (price, savePrice full price blockID db)).mapError fun _ => "calculatePrice"

/-! ### Runs -/

/-- The number of transactions of a block; a hundred times as many do not fit into memory. -/
structure BlockSize where
  size : UInt64
  fits : size.toNat * 100 < 2 ^ 64

/-- A price that was calculated from the one before. -/
structure PriceStep where
  blockID : ℕ
  size : BlockSize
  previousPrice : U256
  price : U256

structure PricingState where
  db : CacheLevelDB
  /-- The last first. -/
  computed : List PriceStep

inductive PricingEvent where
  | calculatePrice (full : Bool) (size : BlockSize) (blockID : ℕ)
  | reopen

/-- What is added to the steps for a block. -/
def priceStep (node : Params) (size : BlockSize) (blockID : ℕ) (price : U256) (db : CacheLevelDB) :
    List PriceStep :=
  if blockID ≤ 1 then []
  else match readPrice node (blockID - 1) db with
    | .ok previousPrice => [⟨blockID, size, previousPrice, price⟩]
    | .error _ => []

def pricing (node : Params) (strategy : PricingStrategy) : Machine PricingState PricingEvent where
  initial := ⟨.make ∅, []⟩
  step
    | .calculatePrice full size blockID, s =>
      match calculatePrice node strategy full size.size blockID s.db with
      | .ok (price, db) => some ⟨db, priceStep node size blockID price s.db ++ s.computed⟩
      | .error _ => none
    | .reopen, s => some {s with db := .make s.db.directories}

/-! ### What is expected of a price -/

section Expected
variable (node : Params)

/-- A price cut to the configured bounds. -/
def clamp (price : ℕ) : ℕ := min (max price node.minPrice.toNat) node.maxPrice.toNat

/-- The distance of the load from the optimum. -/
def gap (size : UInt64) : ℕ :=
  if loadPercentage size < node.optimalLoadPercentage then
    node.optimalLoadPercentage.toNat - (loadPercentage size).toNat
  else (loadPercentage size).toNat - node.optimalLoadPercentage.toNat

/-- How far the price is to move. -/
def change (previousPrice : ℕ) (size : UInt64) : ℕ :=
  node.adjustmentSpeed.toNat * previousPrice * gap node size / 1000000

/-- What a price should be. -/
structure PriceStep.Sound (c : PriceStep) : Prop where
  bounds : node.minPrice.toNat ≤ c.price.toNat ∧ c.price.toNat ≤ node.maxPrice.toNat
  down : loadPercentage c.size.size < node.optimalLoadPercentage →
    c.price.toNat ≤ clamp node c.previousPrice.toNat
  up : node.optimalLoadPercentage ≤ loadPercentage c.size.size →
    clamp node c.previousPrice.toNat ≤ c.price.toNat
  /-- A block with more transactions does not make it smaller. -/
  monotone : ∀ more : BlockSize, c.size.size ≤ more.size →
    c.price ≤ node.dynamicStrategy.calculatePrice c.previousPrice more.size
  multiplication : node.adjustmentSpeed.toNat * c.previousPrice.toNat < 2 ^ 256 ∧
    node.adjustmentSpeed.toNat * c.previousPrice.toNat * gap node c.size.size < 2 ^ 256
  subtraction : loadPercentage c.size.size < node.optimalLoadPercentage →
    change node c.previousPrice.toNat c.size.size ≤ c.previousPrice.toNat

/-- The step is not spoiled: a price that falls does not fall by more than itself, and the
installed maximum is not below the minimum; a price that does not fall is not above the
installed maximum, and either that is not above the configured one or the price stays below
it anyway. -/
def PriceStep.Contained (c : PriceStep) : Prop :=
  if loadPercentage c.size.size < node.optimalLoadPercentage then
    change node c.previousPrice.toNat c.size.size ≤ c.previousPrice.toNat ∧
      node.minPrice.toNat ≤ (-node.maxPrice).toNat
  else
    c.previousPrice.toNat ≤ (-node.maxPrice).toNat ∧
      (c.previousPrice.toNat + change node c.previousPrice.toNat c.size.size ≤ node.maxPrice.toNat ∨
        (-node.maxPrice).toNat ≤ node.maxPrice.toNat)

/-- The parameters that are meant. -/
structure Configured : Prop where
  dynamic : node.getParamString "pricingStrategy" "DYNAMIC" = "DYNAMIC"
  bounds : node.minPrice ≤ node.maxPrice
  percentage : node.optimalLoadPercentage ≤ 100
  speed : node.adjustmentSpeed.toNat < 2 ^ 32
  start : node.minPrice ≤ node.startPrice ∧ node.startPrice ≤ node.maxPrice

end Expected

/-! ### The arithmetic -/

@[simp] theorem toNat_u256 (x : UInt64) : (u256 x).toNat = x.toNat := by
  have hx := x.toNat_lt
  simp only [u256, BitVec.toNat_setWidth, UInt64.toNat_toBitVec]
  omega

theorem toNat_loadPercentage (b : BlockSize) :
    (loadPercentage b.size).toNat = b.size.toNat * 100 / MAX_TRANSACTIONS_PER_BLOCK := by
  have hfits := b.fits
  simp only [loadPercentage, UInt64.toNat_div, UInt64.toNat_mul, UInt64.toNat_ofNat]
  rw [Nat.mod_eq_of_lt hfits]
  rfl

/-- The share of a price that it moves by, where nothing wraps. -/
theorem toNat_share {speed g : UInt64} {previousPrice : U256} (hspeed : speed.toNat < 2 ^ 32)
    (hprice : previousPrice.toNat < 2 ^ 64) :
    speed.toNat * previousPrice.toNat < 2 ^ 256 ∧
    speed.toNat * previousPrice.toNat * g.toNat < 2 ^ 256 ∧
    (u256 speed * previousPrice * u256 g / 1000000).toNat =
      speed.toNat * previousPrice.toNat * g.toNat / 1000000 := by
  have hfirst : speed.toNat * previousPrice.toNat < 2 ^ 96 :=
    calc speed.toNat * previousPrice.toNat
      _ ≤ 2 ^ 32 * previousPrice.toNat := Nat.mul_le_mul_right _ hspeed.le
      _ < 2 ^ 32 * 2 ^ 64 := Nat.mul_lt_mul_of_pos_left hprice (by decide)
      _ = 2 ^ 96 := by decide
  have hsecond : speed.toNat * previousPrice.toNat * g.toNat < 2 ^ 160 :=
    calc speed.toNat * previousPrice.toNat * g.toNat
      _ ≤ 2 ^ 96 * g.toNat := Nat.mul_le_mul_right _ hfirst.le
      _ < 2 ^ 96 * 2 ^ 64 := Nat.mul_lt_mul_of_pos_left g.toNat_lt (by decide)
      _ = 2 ^ 160 := by decide
  refine ⟨by omega, by omega, ?_⟩
  rw [BitVec.toNat_udiv, BitVec.toNat_mul, BitVec.toNat_mul, toNat_u256, toNat_u256,
    Nat.mod_eq_of_lt (by omega : speed.toNat * previousPrice.toNat < 2 ^ 256),
    Nat.mod_eq_of_lt (by omega : speed.toNat * previousPrice.toNat * g.toNat < 2 ^ 256)]
  rfl

theorem exists_toNat_gap (node : Params) (size : UInt64) :
    ∃ g : UInt64, g.toNat = gap node size := by
  unfold gap
  split_ifs with hload
  · exact ⟨_, UInt64.toNat_sub_of_le _ _ (UInt64.le_of_lt hload)⟩
  · exact ⟨_, UInt64.toNat_sub_of_le _ _ (UInt64.not_lt.mp hload)⟩

theorem toNat_cut (price low high : U256) :
    (if high < (if price < low then low else price) then high
      else if price < low then low else price).toNat =
      min (max price.toNat low.toNat) high.toNat := by
  simp only [BitVec.lt_def]
  split_ifs <;> omega

section Step
variable {node : Params} (hnode : Configured node)
include hnode

theorem Configured.strategy_eq : node.pricingStrategy = .ok (.dynamic node.dynamicStrategy) := by
  simp only [Params.pricingStrategy, hnode.dynamic]
  rfl

theorem Configured.toUInt64_percentage :
    node.dynamicStrategy.optimalLoadPercentage.toUInt64 = node.optimalLoadPercentage := by
  have hle : node.optimalLoadPercentage.toNat ≤ 100 := UInt64.le_iff_toNat_le.mp hnode.percentage
  apply UInt64.toNat_inj.mp
  simp only [Params.dynamicStrategy, UInt32.toNat_toUInt64, UInt64.toNat_toUInt32]
  omega

theorem Configured.toUInt64_speed :
    node.dynamicStrategy.adjustmentSpeed.toUInt64 = node.adjustmentSpeed := by
  have hlt := hnode.speed
  apply UInt64.toNat_inj.mp
  simp only [Params.dynamicStrategy, UInt32.toNat_toUInt64, UInt64.toNat_toUInt32]
  omega

/-- The price before it is cut. -/
def moved (node : Params) (previousPrice : ℕ) (size : UInt64) : ℕ :=
  if loadPercentage size < node.optimalLoadPercentage then
    previousPrice - change node previousPrice size
  else previousPrice + change node previousPrice size

theorem Configured.toNat_calculatePrice {previousPrice : U256} {size : UInt64}
    (hprice : previousPrice.toNat < 2 ^ 64)
    (hdown : loadPercentage size < node.optimalLoadPercentage →
      change node previousPrice.toNat size ≤ previousPrice.toNat) :
    (node.dynamicStrategy.calculatePrice previousPrice size).toNat =
      min (max (moved node previousPrice.toNat size) node.minPrice.toNat)
        (-node.maxPrice).toNat := by
  have hmin : node.dynamicStrategy.minPrice.toNat = node.minPrice.toNat := toNat_u256 _
  have hmax : node.dynamicStrategy.maxPrice.toNat = (-node.maxPrice).toNat := toNat_u256 _
  unfold DynamicPricingStrategy.calculatePrice
  dsimp only
  rw [toNat_cut, hmin, hmax, hnode.toUInt64_percentage, hnode.toUInt64_speed]
  congr 2
  by_cases hload : loadPercentage size < node.optimalLoadPercentage
  · have hgap : (node.optimalLoadPercentage - loadPercentage size).toNat = gap node size := by
      rw [gap, if_pos hload, UInt64.toNat_sub_of_le _ _ (UInt64.le_of_lt hload)]
    obtain ⟨-, -, hshare⟩ := toNat_share (g := node.optimalLoadPercentage - loadPercentage size)
      hnode.speed hprice
    rw [hgap] at hshare
    rw [if_pos hload, moved, if_pos hload, BitVec.toNat_sub_of_le, hshare]
    · rfl
    · rw [BitVec.le_def, hshare]
      exact hdown hload
  · have hle : node.optimalLoadPercentage ≤ loadPercentage size := UInt64.not_lt.mp hload
    have hgap : (loadPercentage size - node.optimalLoadPercentage).toNat = gap node size := by
      rw [gap, if_neg hload, UInt64.toNat_sub_of_le _ _ hle]
    obtain ⟨-, hlt, hshare⟩ := toNat_share (g := loadPercentage size - node.optimalLoadPercentage)
      hnode.speed hprice
    rw [hgap] at hshare hlt
    rw [if_neg hload, moved, if_neg hload, BitVec.toNat_add, hshare]
    refine Nat.mod_eq_of_lt ?_
    omega

end Step

section Monotone
variable {node : Params} {p : ℕ} {b more : BlockSize} (h : b.size ≤ more.size)
include h

theorem loadPercentage_mono : (loadPercentage b.size).toNat ≤ (loadPercentage more.size).toNat := by
  have hsize : b.size.toNat ≤ more.size.toNat := UInt64.le_iff_toNat_le.mp h
  rw [toNat_loadPercentage, toNat_loadPercentage]
  exact Nat.div_le_div_right (Nat.mul_le_mul_right _ hsize)

/-- Below the optimum, a fuller block moves the price by less. -/
theorem change_anti (hload : loadPercentage more.size < node.optimalLoadPercentage) :
    loadPercentage b.size < node.optimalLoadPercentage ∧
      change node p more.size ≤ change node p b.size := by
  have hmono := loadPercentage_mono h
  have hload' : loadPercentage b.size < node.optimalLoadPercentage := by
    rw [UInt64.lt_iff_toNat_lt] at hload ⊢
    omega
  refine ⟨hload', Nat.div_le_div_right (Nat.mul_le_mul_left _ ?_)⟩
  rw [gap, gap, if_pos hload, if_pos hload']
  omega

theorem moved_mono : moved node p b.size ≤ moved node p more.size := by
  have hmono := loadPercentage_mono h
  unfold moved
  by_cases hload : loadPercentage more.size < node.optimalLoadPercentage
  · obtain ⟨hload', hchange⟩ := change_anti (p := p) h hload
    rw [if_pos hload, if_pos hload']
    omega
  · rw [if_neg hload]
    split_ifs with hload'
    · omega
    · refine Nat.add_le_add_left (Nat.div_le_div_right (Nat.mul_le_mul_left _ ?_)) _
      rw [gap, gap, if_neg hload, if_neg hload']
      omega

end Monotone

section Step
variable {node : Params} (hnode : Configured node) {c : PriceStep}
  (hprice : c.price = node.dynamicStrategy.calculatePrice c.previousPrice c.size.size)
  (hlow : node.minPrice.toNat ≤ c.previousPrice.toNat)
  (hhigh : c.previousPrice.toNat ≤ node.maxPrice.toNat)
include hnode hprice hlow hhigh

/-- What a step comes to if the subtraction does not wrap. -/
theorem PriceStep.sound_iff (hdown : loadPercentage c.size.size < node.optimalLoadPercentage →
      change node c.previousPrice.toNat c.size.size ≤ c.previousPrice.toNat) :
    c.Sound node ↔
      (node.minPrice.toNat ≤ c.price.toNat ∧ c.price.toNat ≤ node.maxPrice.toNat) ∧
      if loadPercentage c.size.size < node.optimalLoadPercentage then
        c.price.toNat ≤ c.previousPrice.toNat
      else c.previousPrice.toNat ≤ c.price.toNat := by
  have hword : c.previousPrice.toNat < 2 ^ 64 := hhigh.trans_lt node.maxPrice.toNat_lt
  have hclamp : clamp node c.previousPrice.toNat = c.previousPrice.toNat := by
    unfold clamp
    omega
  constructor
  · intro hsound
    refine ⟨hsound.bounds, ?_⟩
    split_ifs with hload
    · exact hclamp ▸ hsound.down hload
    · exact hclamp ▸ hsound.up (UInt64.not_lt.mp hload)
  · rintro ⟨hbounds, hdirection⟩
    refine ⟨hbounds, fun hload => ?_, fun hload => ?_, fun more hmore => ?_, ?_, hdown⟩
    · rwa [hclamp, if_pos hload] at *
    · rw [hclamp]
      rwa [if_neg (UInt64.not_lt.mpr hload)] at hdirection
    · -- a larger load moves the price by less, so that its subtraction does not wrap either
      have hdown' : loadPercentage more.size < node.optimalLoadPercentage →
          change node c.previousPrice.toNat more.size ≤ c.previousPrice.toNat := fun hload => by
        obtain ⟨hload', hchange⟩ := change_anti hmore hload
        exact hchange.trans (hdown hload')
      have hmoved : moved node c.previousPrice.toNat c.size.size ≤
        moved node c.previousPrice.toNat more.size := moved_mono hmore
      rw [BitVec.le_def, hprice, hnode.toNat_calculatePrice hword hdown,
        hnode.toNat_calculatePrice hword hdown']
      omega
    · obtain ⟨g, hg⟩ := exists_toNat_gap node c.size.size
      obtain ⟨hfirst, hsecond, -⟩ := toNat_share (g := g) hnode.speed hword
      exact ⟨hfirst, hg ▸ hsecond⟩

/-- A step is as expected exactly if it is not spoiled. -/
theorem PriceStep.sound_iff_contained : c.Sound node ↔ c.Contained node := by
  have hword : c.previousPrice.toNat < 2 ^ 64 := hhigh.trans_lt node.maxPrice.toNat_lt
  unfold PriceStep.Contained
  by_cases hload : loadPercentage c.size.size < node.optimalLoadPercentage
  · rw [if_pos hload]
    by_cases hchange : change node c.previousPrice.toNat c.size.size ≤ c.previousPrice.toNat
    · rw [c.sound_iff hnode hprice hlow hhigh fun _ => hchange, if_pos hload, hprice,
        hnode.toNat_calculatePrice hword fun _ => hchange, moved, if_pos hload]
      omega
    · exact iff_of_false (fun hsound => hchange (hsound.subtraction hload)) fun h => hchange h.1
  · have hdown : loadPercentage c.size.size < node.optimalLoadPercentage →
      change node c.previousPrice.toNat c.size.size ≤ c.previousPrice.toNat :=
        fun h => absurd h hload
    rw [if_neg hload, c.sound_iff hnode hprice hlow hhigh hdown, if_neg hload, hprice,
      hnode.toNat_calculatePrice hword hdown, moved, if_neg hload]
    omega

end Step

/-! ### Prices that follow one another -/

/-- Each price was calculated from the start price or from one that was calculated before. -/
def Chained (node : Params) : List PriceStep → Prop
  | [] => True
  | c :: rest =>
    c.price = node.dynamicStrategy.calculatePrice c.previousPrice c.size.size ∧
      (c.previousPrice = u256 node.startPrice ∨ ∃ d ∈ rest, c.previousPrice = d.price) ∧
      Chained node rest

theorem Chained.sound_iff {node : Params} (hnode : Configured node) {steps : List PriceStep}
    (h : Chained node steps) :
    (∀ c ∈ steps, c.Sound node) ↔ ∀ c ∈ steps, c.Contained node := by
  induction steps with
  | nil => simp
  | cons c rest ih =>
    obtain ⟨hprice, hprevious, hrest⟩ := h
    rw [List.forall_mem_cons, List.forall_mem_cons, ← ih hrest]
    refine and_congr_left fun hsound => ?_
    have hbounds : node.minPrice.toNat ≤ c.previousPrice.toNat ∧
        c.previousPrice.toNat ≤ node.maxPrice.toNat := by
      rcases hprevious with hstart | ⟨d, hd, hdprice⟩
      · rw [hstart, toNat_u256]
        exact hnode.start.imp UInt64.le_iff_toNat_le.mp UInt64.le_iff_toNat_le.mp
      · rw [hdprice]
        exact (hsound d hd).bounds
    exact c.sound_iff_contained hnode hprice hbounds.1 hbounds.2

/-- What the database holds was calculated. -/
structure Logged (node : Params) (s : PricingState) : Prop where
  opened : s.db.Opened
  chained : Chained node s.computed
  saved : ∀ blockID value, 1 < blockID → s.db.find (priceKey blockID) = some value →
    ∃ c ∈ s.computed, value = decimalText c.price.toNat

theorem u256OfText_decimalText (price : U256) :
    u256OfText (decimalText price.toNat) = .ok price := by
  have hdigits : (decimalText price.toNat).all isDigit = true :=
    List.all_eq_true.mpr fun d hd => isDigit_of_mem_decimalText hd
  rw [u256OfText, if_pos hdigits, decimalValue_decimalText, BitVec.ofNat_toNat,
    BitVec.setWidth_eq]
  rfl

section Run
variable {node : Params} {s s' : PricingState} {blockID : ℕ} {price : U256}

theorem readPrice_eq_ok {db : CacheLevelDB} (hread : readPrice node blockID db = .ok price) :
    (blockID ≤ 1 ∧ price = u256 node.startPrice) ∨
      (1 < blockID ∧ ∃ value, db.find (priceKey blockID) = some value ∧
        u256OfText value = .ok price) := by
  unfold readPrice at hread
  split_ifs at hread with hblock
  · cases hread
    exact .inl ⟨hblock, rfl⟩
  · have hstring := db.readString_eq_find (priceKey blockID)
    simp only [mapError_eq_ok] at hread
    cases hfind : db.find (priceKey blockID) with
    | none =>
      rw [hfind, Option.getD_none] at hstring
      rw [hstring] at hread
      cases hread
    | some value =>
      rw [hfind, Option.getD_some] at hstring
      rw [hstring] at hread
      split_ifs at hread
      exact .inr ⟨Nat.lt_of_not_le hblock, value, rfl, hread⟩

theorem Logged.readPrice (h : Logged node s) (hread : readPrice node blockID s.db = .ok price) :
    price = u256 node.startPrice ∨ ∃ c ∈ s.computed, price = c.price := by
  rcases readPrice_eq_ok hread with ⟨-, hstart⟩ | ⟨hblock, value, hfind, htext⟩
  · exact .inl hstart
  · obtain ⟨c, hc, rfl⟩ := h.saved blockID value hblock hfind
    rw [u256OfText_decimalText] at htext
    exact .inr ⟨c, hc, (Except.ok.inj htext).symm⟩

/-- What a call that returns does. -/
theorem calculatePrice_eq_ok {strategy : PricingStrategy} {full : Bool} {size : UInt64}
    {db db' : CacheLevelDB}
    (h : calculatePrice node strategy full size blockID db = .ok (price, db')) :
    db' = savePrice full price blockID db ∧ (1 < blockID →
      ∃ oldPrice, Pricing.readPrice node (blockID - 1) db = .ok oldPrice ∧
        price = strategy.calculatePrice oldPrice size) := by
  unfold calculatePrice at h
  rw [mapError_eq_ok] at h
  split_ifs at h with hblock
  · obtain ⟨_, hret⟩ := after_bind h
    cases hret
    exact ⟨rfl, fun hlt => absurd hblock (by omega)⟩
  · obtain ⟨oldPrice, hold, hret⟩ := bind_eq_ok.mp h
    cases hret
    exact ⟨rfl, fun _ => ⟨oldPrice, hold, rfl⟩⟩

theorem Logged.step {event : PricingEvent} (h : Logged node s)
    (hstep : (pricing node (.dynamic node.dynamicStrategy)).step event s = some s') :
    Logged node s' := by
  cases event with
  | reopen =>
    cases hstep
    exact ⟨opened_make _, h.chained, by
      rw [make_of_opened h.opened]
      exact h.saved⟩
  | calculatePrice full size blockID =>
    simp only [pricing] at hstep
    cases hcall :
      calculatePrice node (.dynamic node.dynamicStrategy) full size.size blockID s.db with
    | error e =>
      rw [hcall] at hstep
      cases hstep
    | ok result =>
      obtain ⟨price, db⟩ := result
      rw [hcall] at hstep
      cases hstep
      obtain ⟨rfl, hlater⟩ := calculatePrice_eq_ok hcall
      have hopened := opened_writeString h.opened full (priceKey blockID)
        (decimalText price.toNat)
      by_cases hblock : blockID ≤ 1
      · -- the start price is saved, but no price of such a block is read
        refine ⟨hopened, ?_, fun b value hb hfind => ?_⟩
        · simpa [priceStep, hblock] using h.chained
        · rcases find_of_find_writeString h.opened hfind with hfind | ⟨hkey, -⟩
          · simpa [priceStep, hblock] using h.saved b value hb hfind
          · have hsame := createKey_injective hkey
            simp only [List.cons.injEq, and_true] at hsame
            omega
      · obtain ⟨oldPrice, hold, hprice⟩ := hlater (by omega)
        have hadded : priceStep node size blockID price s.db =
            [⟨blockID, size, oldPrice, price⟩] := by
          rw [priceStep, if_neg hblock, hold]
        rw [hadded, List.singleton_append]
        refine ⟨hopened, ⟨hprice, h.readPrice hold, h.chained⟩, fun b value hb hfind => ?_⟩
        rcases find_of_find_writeString h.opened hfind with hfind | ⟨-, hvalue⟩
        · obtain ⟨c, hc, hvalue⟩ := h.saved b value hb hfind
          exact ⟨c, List.mem_cons_of_mem _ hc, hvalue⟩
        · exact ⟨_, List.mem_cons_self, hvalue⟩

theorem logged_initial (strategy : PricingStrategy) :
    Logged node (pricing node strategy).initial where
  opened := opened_make ∅
  chained := trivial
  saved blockID value _ hfind := by
    have hnone : (CacheLevelDB.make ∅).find (priceKey blockID) = none := rfl
    cases hnone.symm.trans hfind

end Run

/-- **In every run the prices are as expected exactly if no step is spoiled**, by a subtraction
that wraps or by the negated maximum. -/
theorem prices_sound_iff (node : Params) (hnode : Configured node) (strategy : PricingStrategy)
    (hstrategy : node.pricingStrategy = .ok strategy) (events : List PricingEvent)
    (s : PricingState) (hrun : (pricing node strategy).run events = some s) :
    (∀ c ∈ s.computed, c.Sound node) ↔ ∀ c ∈ s.computed, c.Contained node := by
  cases hnode.strategy_eq.symm.trans hstrategy
  have hlogged : Logged node s := Machine.Reachable.invariant (logged_initial _)
    (fun event s s' h hstep => h.step hstep) ⟨events, hrun⟩
  exact hlogged.chained.sound_iff hnode

/-! ### Three configurations -/

/-- The parameters have their defaults, except one. -/
def defaultsBut (name : String) (value : UInt64) : Params where
  strings _ := none
  numbers n := if n = name then some value else none

def selfNegated : Params := defaultsBut "DYNAMIC_PRICING_MAX_PRICE" 9223372036854775808

def fixedPrice : Params := defaultsBut "DYNAMIC_PRICING_MAX_PRICE" 100000

/-- Below the optimum, each percent takes a tenth of the price. -/
def fastFalling : Params := defaultsBut "DYNAMIC_PRICING_ADJUSTMENT_SPEED" 100000

instance decidableConfigured (node : Params) : Decidable (Configured node) :=
  decidable_of_iff (node.getParamString "pricingStrategy" "DYNAMIC" = "DYNAMIC" ∧
      node.minPrice ≤ node.maxPrice ∧ node.optimalLoadPercentage ≤ 100 ∧
      node.adjustmentSpeed.toNat < 2 ^ 32 ∧
      node.minPrice ≤ node.startPrice ∧ node.startPrice ≤ node.maxPrice)
    ⟨fun ⟨h₁, h₂, h₃, h₄, h₅⟩ => ⟨h₁, h₂, h₃, h₄, h₅⟩,
      fun ⟨h₁, h₂, h₃, h₄, h₅⟩ => ⟨h₁, h₂, h₃, h₄, h₅⟩⟩

instance decidableContained (node : Params) (c : PriceStep) : Decidable (c.Contained node) :=
  inferInstanceAs (Decidable (ite ..))

def emptyBlock : BlockSize := ⟨0, by decide⟩
def fullBlock : BlockSize := ⟨8192, by decide⟩

def dynamicPricing (node : Params) : Machine PricingState PricingEvent :=
  pricing node (.dynamic node.dynamicStrategy)

def risingAndFalling : List PricingEvent :=
  [.calculatePrice false emptyBlock 1, .calculatePrice false fullBlock 2,
    .calculatePrice true emptyBlock 3, .reopen, .calculatePrice false fullBlock 4]

theorem prices_sound_selfNegated :
    Configured selfNegated ∧ ∃ s, (dynamicPricing selfNegated).run risingAndFalling = some s ∧
      s.computed.map PriceStep.price = [103000, 100000, 103000] ∧
      ∀ c ∈ s.computed, c.Sound selfNegated := by
  have hnode : Configured selfNegated := by decide +kernel
  obtain ⟨s, hrun, hprices, hcontained⟩ :
      ∃ s, (dynamicPricing selfNegated).run risingAndFalling = some s ∧
        s.computed.map PriceStep.price = [103000, 100000, 103000] ∧
        ∀ c ∈ s.computed, c.Contained selfNegated :=
    Machine.exists_run (by decide +kernel)
  exact ⟨hnode, s, hrun, hprices,
    (prices_sound_iff _ hnode _ hnode.strategy_eq _ s hrun).mpr hcontained⟩

/-- A full block is dearer than the maximum; and an empty block has the largest price there is. -/
theorem price_above_maximum :
    (Configured fixedPrice ∧
      ∃ s, (dynamicPricing fixedPrice).run [.calculatePrice false fullBlock 2] = some s ∧
        s.computed.map PriceStep.price = [103000] ∧ ¬ ∀ c ∈ s.computed, c.Sound fixedPrice) ∧
    Configured fastFalling ∧
      ∃ s, (dynamicPricing fastFalling).run [.calculatePrice false emptyBlock 2] = some s ∧
        s.computed.map PriceStep.price = [18446744072709551616] ∧
        ¬ ∀ c ∈ s.computed, c.Sound fastFalling := by
  have hspoiled : ∀ {node : Params} {steps : List PriceStep},
      (∃ c ∈ steps, node.maxPrice.toNat < c.price.toNat) → ¬ ∀ c ∈ steps, c.Sound node :=
    fun ⟨c, hc, hlt⟩ hsound => absurd (hsound c hc).bounds.2 (by omega)
  obtain ⟨s, hrun, hprices, habove⟩ :
      ∃ s, (dynamicPricing fixedPrice).run [.calculatePrice false fullBlock 2] = some s ∧
        s.computed.map PriceStep.price = [103000] ∧
        ∃ c ∈ s.computed, fixedPrice.maxPrice.toNat < c.price.toNat :=
    Machine.exists_run (by decide +kernel)
  obtain ⟨t, hrun', hprices', habove'⟩ :
      ∃ s, (dynamicPricing fastFalling).run [.calculatePrice false emptyBlock 2] = some s ∧
        s.computed.map PriceStep.price = [18446744072709551616] ∧
        ∃ c ∈ s.computed, fastFalling.maxPrice.toNat < c.price.toNat :=
    Machine.exists_run (by decide +kernel)
  exact ⟨⟨by decide +kernel, s, hrun, hprices, hspoiled habove⟩,
    by decide +kernel, t, hrun', hprices', hspoiled habove'⟩

end SkaleConsensus.Pricing
