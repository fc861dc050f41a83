import SkaleConsensus.Pricing.Agent
import SkaleConsensus.Schain.Delivery

/-! The prices that the external face is given.

`pushBlockToExtFace` calculates the price of a block, saves it, reads the price of the block before
and passes that one to `createBlock`. A price that is saved already is not overwritten; if the one
before is not found the call throws, and the block is not passed on. So what is in the price
database is, at any time and after any crash, the price that the chain itself determines: a fold
over its blocks from the start price on (`chainPrice`). Two nodes with one configuration pass the
same prices, however they got their blocks (`passed_prices_agree`). -/
namespace SkaleConsensus.Schain
open Library Block Db Pricing CacheLevelDB

/-- How far `pushBlockToExtFace` is with the block at hand. -/
inductive Stage where
  | entered
  | calculated
  /-- In the call of `createBlock`. -/
  | calling
deriving DecidableEq, Repr

/-- A node and its price database. -/
structure PricedLedger where
  ledger : Ledger
  priceDB : CacheLevelDB
  stage : Stage
  /-- Not in the code: the block ids and prices of all calls of `createBlock`. -/
  passed : List (ℕ × U256)

inductive PricedEvent where
  | calculatePrice (full : Bool)
  /-- The price of the block before is read, and `createBlock` is called. -/
  | call
  /-- An exit was requested: `pushBlockToExtFace` throws before it calls `createBlock`. -/
  | interrupt
  /-- Anything else that happens to the node. -/
  | node (e : LedgerEvent) (full : Bool)

namespace PricedLedger

/-- `pushBlockToExtFace` throws. -/
def throws (s : PricedLedger) : PricedLedger :=
  {s with ledger := s.ledger.createBlockThrows, stage := .entered}

/-- A call of `createBlock` ends, and an external face takes a block, only if it was called. -/
def allows (s : PricedLedger) : LedgerEvent → Prop
  | .createBlock _ | .crash true => s.stage = .calling
  | _ => True

instance decidableAllows (s : PricedLedger) : DecidablePred s.allows
  | .createBlock _ | .crash true => inferInstanceAs (Decidable (s.stage = .calling))
  | .blockCommitArrived _ | .catchup _ | .update _ | .crash false | .bootstrap _ _ _
  | .bootstrapped _ => inferInstanceAs (Decidable True)

/-- A new process opens the database. At block 0, `bootstrap` saves the price of the block. -/
def priceDBAfter (s : PricedLedger) (node : Params) (full : Bool) : LedgerEvent → CacheLevelDB
  | .bootstrap _ _ _ => .make s.priceDB.directories
  | .bootstrapped _ =>
    if s.ledger.tip.id = 0 then savePrice full (u256 node.startPrice) 0 s.priceDB else s.priceDB
  | _ => s.priceDB

end PricedLedger

section Machine
variable (node : Params) (strategy : PricingStrategy)

def pricedStep : PricedEvent → PricedLedger → Option PricedLedger
  | .calculatePrice full, s =>
    if s.stage = .entered then s.ledger.atHand.map fun block =>
      match calculatePrice node strategy full (UInt64.ofNat block.transactionList.length)
          block.blockID s.priceDB with
      | .ok (_, db) => {s with priceDB := db, stage := .calculated}
      | .error _ => s.throws
    else none
  | .call, s =>
    if s.stage = .calculated then s.ledger.atHand.map fun block =>
      match readPrice node (block.blockID - 1) s.priceDB with
      | .ok currentPrice =>
        {s with stage := .calling, passed := s.passed ++ [(block.blockID, currentPrice)]}
      | .error _ => s.throws
    else none
  | .interrupt, s =>
    if s.stage = .calling then none else s.ledger.atHand.map fun _ => s.throws
  | .node e full, s =>
    if s.allows e then (ledgerStep e s.ledger).map fun ledger =>
      {s with ledger, priceDB := s.priceDBAfter node full e, stage := .entered}
    else none

/-- A node from its first start on. -/
def pricedLedger : Machine PricedLedger PricedEvent where
  initial := ⟨ledger.initial, .make ∅, .entered, []⟩
  step := pricedStep node strategy

/-- The price that the chain determines, by the transactions of its blocks. -/
def chainPrice (chain : ℕ → List Transaction) : ℕ → U256
  | 0 | 1 => u256 node.startPrice
  | id + 2 => strategy.calculatePrice (chainPrice chain (id + 1))
      (UInt64.ofNat (chain (id + 2)).length)

end Machine

/-- A block that comes is that of the chain. -/
def OnChain (chain : ℕ → List Transaction) : PricedEvent → PricedLedger → Prop
  | .node (.blockCommitArrived block) _, _ | .node (.catchup block) _, _ =>
    block.transactionList = chain block.blockID
  | _, _ => True

instance decidableOnChain (chain : ℕ → List Transaction) (e : PricedEvent) (s : PricedLedger) :
    Decidable (OnChain chain e s) := by
  unfold OnChain
  split <;> infer_instance

/-! ### What the node has of the chain -/

section Blocks
variable {chain : ℕ → List Transaction} {s s' : Ledger} {e : LedgerEvent}

/-- The blocks that the node has saved are those of the chain. -/
structure Known (chain : ℕ → List Transaction) (s : Ledger) : Prop where
  saved : ∀ id, ∀ block ∈ s.blockDB id, block.transactionList = chain block.blockID
  current : ∀ block, s.phase = .saved block → block.transactionList = chain block.blockID

theorem Known.atHand {block : CommittedBlock} (hs : Known chain s) (h : s.atHand = some block) :
    block.transactionList = chain block.blockID := by
  unfold Ledger.atHand at h
  split at h
  next hphase =>
    cases h
    exact hs.current block hphase
  next =>
    split_ifs at h
    exact hs.saved _ block h
  next => cases h

theorem Known.createBlockThrows (hs : Known chain s) : Known chain s.createBlockThrows := by
  unfold Ledger.createBlockThrows
  split_ifs
  · exact hs
  · exact ⟨hs.saved, nofun⟩

theorem Known.effect (hs : Known chain s) (he : LedgerEffect s e s')
    (hchain : ∀ block, e.Brings block → block.transactionList = chain block.blockID) :
    Known chain s' := by
  cases he with
  | same => exact hs
  | @saved _ block hevent _ _ _ =>
    refine ⟨fun id block' hblock' => ?_, fun block' hphase => ?_⟩
    · unfold Ledger.saveBlock at hblock'
      dsimp only at hblock'
      rcases eq_or_ne id block.blockID with rfl | hne
      · rw [Function.update_self] at hblock'
        cases hblock'
        exact hchain block hevent
      · rw [Function.update_of_ne hne] at hblock'
        exact hs.saved id block' hblock'
    · cases hphase
      exact hchain block hevent
  | replayed => exact ⟨hs.saved, hs.current⟩
  | pushed | threw | updated | refused | stopped | started | initialized => exact ⟨hs.saved, nofun⟩

end Blocks

/-! ### What the price database has -/

section Prices
variable {node : Params} {strategy : PricingStrategy} {chain : ℕ → List Transaction}
  {db : CacheLevelDB} {s s' : PricedLedger} {e : PricedEvent} {price : U256} {id : ℕ}

/-- A price that is saved and will be read is that of the chain. -/
structure Determined (node : Params) (strategy : PricingStrategy) (chain : ℕ → List Transaction)
    (db : CacheLevelDB) : Prop where
  opened : db.Opened
  saved : ∀ id, 1 < id → ∀ value ∈ db.find (priceKey id),
    value = decimalText (chainPrice node strategy chain id).toNat

theorem determined_make_empty : Determined node strategy chain (.make ∅) where
  opened := opened_make ∅
  saved id _ value hvalue := by
    have hnone : (CacheLevelDB.make ∅).find (priceKey id) = none := rfl
    cases hnone.symm.trans hvalue

theorem Determined.readPrice (hdb : Determined node strategy chain db)
    (hread : readPrice node id db = .ok price) : price = chainPrice node strategy chain id := by
  rcases readPrice_eq_ok hread with ⟨hid, rfl⟩ | ⟨hid, value, hfind, htext⟩
  · rcases Nat.le_one_iff_eq_zero_or_eq_one.mp hid with rfl | rfl <;> rfl
  · rw [hdb.saved id hid value hfind, u256OfText_decimalText] at htext
    exact (Except.ok.inj htext).symm

theorem Determined.savePrice (hdb : Determined node strategy chain db)
    (hprice : 1 < id → price = chainPrice node strategy chain id) (full : Bool) :
    Determined node strategy chain (savePrice full price id db) := by
  refine ⟨opened_writeString hdb.opened _ _ _, fun id' hid' value hvalue => ?_⟩
  rcases find_of_find_writeString hdb.opened hvalue with hfind | ⟨hkey, rfl⟩
  · exact hdb.saved id' hid' value hfind
  · obtain rfl : id' = id := by simpa using createKey_injective hkey
    rw [hprice hid']

/-- The price of a block is calculated from that of the block before. -/
theorem Determined.calculatePrice {full : Bool} {db' : CacheLevelDB}
    (hdb : Determined node strategy chain db)
    (h : calculatePrice node strategy full (UInt64.ofNat (chain id).length) id db =
      .ok (price, db')) : Determined node strategy chain db' := by
  obtain ⟨rfl, hlater⟩ := calculatePrice_eq_ok h
  refine hdb.savePrice (fun hid => ?_) full
  obtain ⟨oldPrice, hold, hprice⟩ := hlater hid
  obtain ⟨k, rfl⟩ : ∃ k, id = k + 2 := ⟨id - 2, by omega⟩
  rw [hprice, hdb.readPrice hold]
  rfl

theorem Determined.priceDBAfter {e : LedgerEvent} (hdb : Determined node strategy chain s.priceDB)
    (full : Bool) : Determined node strategy chain (s.priceDBAfter node full e) := by
  unfold PricedLedger.priceDBAfter
  split
  · rw [make_of_opened hdb.opened]
    exact hdb
  · split_ifs
    · exact hdb.savePrice (fun hid => absurd hid (by decide)) full
    · exact hdb
  · exact hdb

/-! ### Whole runs -/

structure Agreeing (node : Params) (strategy : PricingStrategy) (chain : ℕ → List Transaction)
    (s : PricedLedger) : Prop where
  known : Known chain s.ledger
  determined : Determined node strategy chain s.priceDB
  passed : ∀ call ∈ s.passed, call.2 = chainPrice node strategy chain (call.1 - 1)

theorem Agreeing.throws (hs : Agreeing node strategy chain s) :
    Agreeing node strategy chain s.throws :=
  ⟨hs.known.createBlockThrows, hs.determined, hs.passed⟩

theorem Agreeing.step (hs : Agreeing node strategy chain s) (hchain : OnChain chain e s)
    (h : pricedStep node strategy e s = some s') : Agreeing node strategy chain s' := by
  cases e with
  | calculatePrice full =>
    obtain ⟨-, h⟩ := Option.ite_none_right_eq_some.mp h
    obtain ⟨block, hblock, rfl⟩ := Option.map_eq_some_iff.mp h
    rw [hs.known.atHand hblock]
    cases hprice : calculatePrice node strategy full (UInt64.ofNat (chain block.blockID).length)
        block.blockID s.priceDB with
    | error e => exact hs.throws
    | ok result => exact ⟨hs.known, hs.determined.calculatePrice hprice, hs.passed⟩
  | call =>
    obtain ⟨-, h⟩ := Option.ite_none_right_eq_some.mp h
    obtain ⟨block, hblock, rfl⟩ := Option.map_eq_some_iff.mp h
    cases hprice : readPrice node (block.blockID - 1) s.priceDB with
    | error e => exact hs.throws
    | ok currentPrice =>
      refine ⟨hs.known, hs.determined, fun call hcall => ?_⟩
      rcases List.mem_append.mp hcall with hbefore | hnow
      · exact hs.passed call hbefore
      · rw [List.mem_singleton.mp hnow]
        exact hs.determined.readPrice hprice
  | interrupt =>
    obtain ⟨-, h⟩ := Option.ite_none_left_eq_some.mp h
    obtain ⟨block, -, rfl⟩ := Option.map_eq_some_iff.mp h
    exact hs.throws
  | node e full =>
    obtain ⟨-, h⟩ := Option.ite_none_right_eq_some.mp h
    obtain ⟨ledger, hledger, rfl⟩ := Option.map_eq_some_iff.mp h
    refine ⟨hs.known.effect (effect_of_step hledger) ?_, hs.determined.priceDBAfter full, hs.passed⟩
    rintro block (rfl | rfl)
    · exact hchain
    · exact hchain

theorem agreeing_of_run {events : List PricedEvent}
    (hrun : (pricedLedger node strategy).run events = some s)
    (hchain : (pricedLedger node strategy).Keeps (OnChain chain)
      (pricedLedger node strategy).initial events) : Agreeing node strategy chain s := by
  refine Machine.run_invariant_of_keeps hrun hchain ?_ fun _ _ _ hs hc hstep => hs.step hc hstep
  exact ⟨⟨nofun, nofun⟩, determined_make_empty, nofun⟩

end Prices

/-- Two runs with one configuration over the blocks of one chain, by consensus and by catchup, with
calls that throw and are repeated, with crashes and with replays: the prices that they pass to
`createBlock` for a block are the same. -/
theorem passed_prices_agree (node : Params) (strategy : PricingStrategy)
    (chain : ℕ → List Transaction) {events events' : List PricedEvent} {s s' : PricedLedger}
    (hrun : (pricedLedger node strategy).run events = some s)
    (hchain : (pricedLedger node strategy).Keeps (OnChain chain)
      (pricedLedger node strategy).initial events)
    (hrun' : (pricedLedger node strategy).run events' = some s')
    (hchain' : (pricedLedger node strategy).Keeps (OnChain chain)
      (pricedLedger node strategy).initial events')
    {id : ℕ} {price price' : U256} (hpassed : (id, price) ∈ s.passed)
    (hpassed' : (id, price') ∈ s'.passed) : price = price' := by
  have hprice := (agreeing_of_run hrun hchain).passed _ hpassed
  have hprice' := (agreeing_of_run hrun' hchain').passed _ hpassed'
  exact hprice.trans hprice'.symm

/-! ### A node that commits and one that is interrupted -/

def thirdBlock : CommittedBlock := {secondBlock with
  blockID := 3
  timeStampMs := 3
  fits := by decide }

/-- The block is priced and passed to `createBlock`. -/
def pushed (full : Bool) : List PricedEvent := [.calculatePrice full, .call]

def firstStart : List PricedEvent :=
  [.node (.bootstrap 0 0 0) false, .node (.bootstrapped 10) false]

def committedInOrder : List PricedEvent :=
  firstStart ++ [.node (.blockCommitArrived firstBlock) false] ++ pushed false ++
  [.node (.createBlock true) false, .node (.update 20) false,
    .node (.blockCommitArrived secondBlock) false] ++ pushed false ++
  [.node (.createBlock true) false, .node (.update 30) false,
    .node (.blockCommitArrived thirdBlock) false] ++ pushed false

/-- The second block is interrupted, thrown back by the external face and lost with the process,
and replayed by the next one; the database is rotated. -/
def committedAfterReplay : List PricedEvent :=
  firstStart ++ [.node (.catchup firstBlock) false] ++ pushed true ++
  [.node (.createBlock true) false, .node (.update 20) false, .node (.catchup secondBlock) false,
    .calculatePrice false, .interrupt, .node (.blockCommitArrived secondBlock) false] ++
  pushed true ++ [.node (.createBlock false) false, .node (.catchup secondBlock) false,
    .calculatePrice false, .node (.crash false) false,
    .node (.bootstrap 1 (MODERN_TIME + 1) 0) false] ++ pushed false ++
  [.node (.createBlock true) false, .node (.bootstrapped 5) false,
    .node (.catchup thirdBlock) false] ++ pushed false

def dearStart : Params := defaultsBut "DYNAMIC_PRICING_START_PRICE" 200000

theorem passed_prices_agree_after_replay :
    ∃ s s', (pricedLedger dearStart (.dynamic dearStart.dynamicStrategy)).run committedInOrder =
        some s ∧
      (pricedLedger dearStart (.dynamic dearStart.dynamicStrategy)).run committedAfterReplay =
        some s' ∧
      s.passed.map Prod.fst = [1, 2, 3] ∧ s'.passed.map Prod.fst = [1, 2, 2, 3] ∧
      (3, 186000) ∈ s.passed ∧ ∀ price', (3, price') ∈ s'.passed → (186000 : U256) = price' := by
  obtain ⟨s, hrun, hpassed⟩ :
      ∃ s, (pricedLedger dearStart (.dynamic dearStart.dynamicStrategy)).run committedInOrder =
        some s ∧ s.passed = [(1, 200000), (2, 200000), (3, 186000)] :=
    Machine.exists_run (by decide +kernel)
  obtain ⟨s', hrun', hpassed'⟩ :
      ∃ s', (pricedLedger dearStart (.dynamic dearStart.dynamicStrategy)).run
        committedAfterReplay = some s' ∧ s'.passed.map Prod.fst = [1, 2, 2, 3] :=
    Machine.exists_run (by decide +kernel)
  have hthird : ((3 : ℕ), (186000 : U256)) ∈ s.passed := by
    rw [hpassed]
    decide
  refine ⟨s, s', hrun, hrun', by rw [hpassed]; rfl, hpassed', hthird, fun price' hprice' => ?_⟩
  exact passed_prices_agree dearStart (.dynamic dearStart.dynamicStrategy) (fun _ => [])
    hrun (by decide +kernel) hrun' (by decide +kernel) hthird hprice'

end SkaleConsensus.Schain
