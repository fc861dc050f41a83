import SkaleConsensus.Block.RoundTrip
import SkaleConsensus.Catchup.Client
import SkaleConsensus.Db.BlockDB
import Mathlib.Algebra.Order.BigOperators.Group.List
import Mathlib.Algebra.Order.Group.Nat

/-! Answering a node that catches up.

The server sends the blocks behind the last one of the client, as many as fit the limit on a
download, and always at least one. The client refuses an answer over the same limit.

`compatible_iff` says when what is sent is what is read: a first block over the limit is sent, and
refused. So is every further try, so that the client stays where it is. -/
namespace SkaleConsensus.Catchup
open Library Block Crypto Proposal Db BlockDB

/-! ### The server -/

/-- The loop of `getSerializedBlocksFromLevelDB`, with the sizes and bytes so far. The block id is a
`uint64_t` that runs to the last block included, so that the turns are counted apart. -/
def serializedBlocksLoop (maxSize endBlock : ℕ) :
    ℕ → ℕ → ℕ → List ℕ → Bytes → EStateM String BlockDB (List ℕ × Option Bytes)
  | 0, _, _, _, _ => throw "no more turns"
  | turns + 1, i, totalSize, blockSizes, serializedBlocks =>
    if i ≤ endBlock then do
      match ← getSerializedBlockFromLevelDB i with
      | none => return (blockSizes, none)
      | some serializedBlock =>
        let totalSize := (totalSize + serializedBlock.length) % 2 ^ 64
        if maxSize < totalSize ∧ 0 < blockSizes.length then
          return (blockSizes, some serializedBlocks)
        else
          serializedBlocksLoop maxSize endBlock turns ((i + 1) % 2 ^ 64) totalSize
            (blockSizes ++ [serializedBlock.length]) (serializedBlocks ++ serializedBlock)
    else return (blockSizes, some serializedBlocks)

/-- The sizes that were added, and the bytes unless a block is missing. -/
def getSerializedBlocksFromLevelDB (maxSize turns startBlock endBlock : ℕ) :
    EStateM String BlockDB (List ℕ × Option Bytes) := do
  let (blockSizes, serializedBlocks) ←
    serializedBlocksLoop maxSize endBlock turns startBlock 0 [] [91]
  match serializedBlocks with
  | none => return (blockSizes, none)
  | some serializedBlocks =>
    checkState (decide (0 < blockSizes.length)) "_blockSizes->size() > 0"
    return (blockSizes, some (serializedBlocks ++ [93]))

/-- `CatchupResponseHeader` with these fields. -/
def catchupResponseHeader (status substatus : UInt64) (blockSizes : Option (List ℕ))
    (lastBid lastTs : ℕ) : Json :=
  .object ([("type", .string (textBytes "BlckCatchupRsp")), ("status", .number status),
    ("substatus", .number substatus), ("count", .number (.ofNat (blockSizes.getD []).length)),
    ("lastBid", .number (.ofNat lastBid)), ("lastTs", .number (.ofNat lastTs))] ++
    match blockSizes with
    | none => []
    | some sizes => [("sizes", .array (sizes.map fun size => .number (.ofNat size)))])

/-- The header and the bytes that follow it, for a client whose last block is `blockID`. -/
def createBlockCatchupResponse (maxSize turns lastCommittedBlockID lastCommittedBlockTimestampS
    blockID : ℕ) : EStateM String BlockDB (Json × Option Bytes) :=
  if lastCommittedBlockID ≤ blockID then
    -- `CONNECTION_DISCONNECT`, `CONNECTION_NO_NEW_BLOCKS`
    return (catchupResponseHeader 4 14 none 0 0, none)
  else EStateM.adaptExcept (fun _ => "createBlockCatchupResponse") do
    let (blockSizes, serializedBlocks) ←
      getSerializedBlocksFromLevelDB maxSize turns (blockID + 1) lastCommittedBlockID
    checkState (decide (0 < blockSizes.length)) "blockSizes->size() > 0"
    match serializedBlocks with
    | none =>
      -- `CONNECTION_DISCONNECT`, `CONNECTION_CATCHUP_DONT_HAVE_THIS_BLOCK`
      return (catchupResponseHeader 4 23 none 0 0, none)
    | some serializedBlocks =>
      -- `CONNECTION_PROCEED`, `CONNECTION_OK`
      return (catchupResponseHeader 1 0 (some blockSizes) lastCommittedBlockID
        lastCommittedBlockTimestampS, some serializedBlocks)

/-! ### What the database holds -/

def held (db : BlockDB) (id : ℕ) : Option Bytes :=
  match db.blockCache.get? id with
  | some block => some block
  | none =>
    let value := db.db.readString (createBlockKey id)
    if value.isEmpty then none else some value

/-- A lookup moves the block to the front of the cache. -/
def touched (db : BlockDB) (id : ℕ) : BlockDB := {db with blockCache := db.blockCache.touch id}

@[simp] theorem held_touched (db : BlockDB) (id id' : ℕ) :
    held (touched db id) id' = held db id' := by
  unfold held touched
  simp only [LruCache.get?_touch]

/-- Bytes that pass `serializedSanityCheck`. -/
def Sane (bytes : Bytes) : Prop := bytes[8]? = some 123 ∧ bytes.getLast? = some 62

section Held
variable {db : BlockDB} {id : ℕ}

theorem getSerialized_of_held {bytes : Bytes} (h : held db id = some bytes) (hsane : Sane bytes) :
    (getSerializedBlockFromLevelDB id).run db = .ok (some bytes) (touched db id) := by
  unfold held at h
  unfold getSerializedBlockFromLevelDB touched LruCache.touch
  rw [run_get_bind]
  cases hcache : db.blockCache.get? id with
  | some block =>
    rw [hcache] at h
    cases h
    rfl
  | none =>
    rw [hcache] at h
    dsimp only at h ⊢
    split_ifs at h ⊢ with hempty
    cases h
    rw [serializedSanityCheck, hsane.1, hsane.2]
    rfl

theorem getSerialized_of_not_held (h : held db id = none) :
    (getSerializedBlockFromLevelDB id).run db = .ok none (touched db id) := by
  unfold held at h
  unfold getSerializedBlockFromLevelDB touched LruCache.touch
  rw [run_get_bind]
  cases hcache : db.blockCache.get? id with
  | some block =>
    rw [hcache] at h
    cases h
  | none =>
    rw [hcache] at h
    dsimp only at h ⊢
    split_ifs at h ⊢ with hempty
    rfl

end Held

/-! ### As many blocks as fit -/

def sentFrom (maxSize : ℕ) : ℕ → List Bytes → List Bytes
  | _, [] => []
  | totalSize, block :: blocks =>
    if maxSize < totalSize + block.length then []
    else block :: sentFrom maxSize (totalSize + block.length) blocks

def byteCount (blocks : List Bytes) : ℕ := (blocks.map List.length).sum

section Sent
variable {maxSize : ℕ}

theorem sentFrom_initial (totalSize : ℕ) (blocks : List Bytes) :
    sentFrom maxSize totalSize blocks <+: blocks := by
  induction blocks generalizing totalSize with
  | nil => exact List.prefix_rfl
  | cons block blocks ih =>
    unfold sentFrom
    split_ifs
    · exact List.nil_prefix
    · exact List.cons_prefix_cons.mpr ⟨rfl, ih _⟩

/-- Within the limit, the total stays within it. -/
theorem byteCount_sentFrom_le {totalSize : ℕ} (h : totalSize ≤ maxSize) (blocks : List Bytes) :
    totalSize + byteCount (sentFrom maxSize totalSize blocks) ≤ maxSize := by
  induction blocks generalizing totalSize with
  | nil => exact h
  | cons block blocks ih =>
    unfold sentFrom
    split_ifs with hover
    · exact h
    · have hrest := ih (Nat.not_lt.mp hover)
      simp only [byteCount, List.map_cons, List.sum_cons] at hrest ⊢
      omega

theorem sentFrom_eq_self_iff {totalSize : ℕ} (h : totalSize ≤ maxSize) (blocks : List Bytes) :
    sentFrom maxSize totalSize blocks = blocks ↔ totalSize + byteCount blocks ≤ maxSize := by
  induction blocks generalizing totalSize with
  | nil => exact iff_of_true rfl h
  | cons block blocks ih =>
    have hcons : byteCount (block :: blocks) = block.length + byteCount blocks := rfl
    unfold sentFrom
    split_ifs with hover
    · refine iff_of_false nofun ?_
      omega
    · rw [List.cons_inj_right, ih (Nat.not_lt.mp hover), hcons, Nat.add_assoc]

end Sent

/-! ### What is sent -/

/-- The blocks with ids from `id` on. -/
def HoldsFrom (db : BlockDB) (id : ℕ) (blocks : List Bytes) : Prop :=
  ∀ k block, blocks[k]? = some block → held db (id + k) = some block ∧ Sane block

section Loop
variable {maxSize endBlock : ℕ} {db : BlockDB}

theorem HoldsFrom.tail {id : ℕ} {block : Bytes} {blocks : List Bytes}
    (h : HoldsFrom db id (block :: blocks)) (id' : ℕ) :
    HoldsFrom (touched db id') (id + 1) blocks := by
  intro k b hb
  obtain ⟨hheld, hsane⟩ := h (k + 1) b hb
  rw [held_touched, Nat.add_assoc, Nat.add_comm 1 k]
  exact ⟨hheld, hsane⟩

/-- One turn, for a block that is there. -/
theorem serializedBlocksLoop_run {turns i totalSize : ℕ} {blockSizes : List ℕ}
    {serializedBlocks block : Bytes} (hle : i ≤ endBlock) (hheld : held db i = some block)
    (hsane : Sane block) (hfits : totalSize + block.length < 2 ^ 64) :
    (serializedBlocksLoop maxSize endBlock (turns + 1) i totalSize blockSizes serializedBlocks).run
      db =
    if maxSize < totalSize + block.length ∧ 0 < blockSizes.length then
      .ok (blockSizes, some serializedBlocks) (touched db i)
    else (serializedBlocksLoop maxSize endBlock turns ((i + 1) % 2 ^ 64) (totalSize + block.length)
      (blockSizes ++ [block.length]) (serializedBlocks ++ block)).run (touched db i) := by
  rw [serializedBlocksLoop, if_pos hle, run_bind_of_ok (getSerialized_of_held hheld hsane)]
  dsimp only
  rw [Nat.mod_eq_of_lt hfits]
  split_ifs <;> rfl

/-- The loop behind the first block. It goes on at block 0 behind the last id of all. -/
theorem serializedBlocksLoop_eq {blocks : List Bytes} {turns i totalSize : ℕ} {blockSizes : List ℕ}
    {serializedBlocks : Bytes} (hid : i + blocks.length = endBlock + 1) (hend : endBlock < 2 ^ 64)
    (hheld : HoldsFrom db i blocks) (hzero : held db 0 = none) (hsizes : 0 < blockSizes.length)
    (hfits : totalSize + byteCount blocks < 2 ^ 64) (hturns : blocks.length < turns) :
    ∃ db', (serializedBlocksLoop maxSize endBlock turns (i % 2 ^ 64) totalSize blockSizes
        serializedBlocks).run db =
      .ok (blockSizes ++ (sentFrom maxSize totalSize blocks).map List.length,
        if sentFrom maxSize totalSize blocks = blocks ∧ endBlock + 1 = 2 ^ 64 then none
        else some (serializedBlocks ++ (sentFrom maxSize totalSize blocks).flatten)) db' := by
  induction blocks generalizing turns i totalSize blockSizes serializedBlocks db with
  | nil =>
    obtain ⟨turns, rfl⟩ := Nat.exists_eq_succ_of_ne_zero (Nat.ne_of_gt hturns)
    have hi : i = endBlock + 1 := hid
    by_cases hwrap : endBlock + 1 = 2 ^ 64
    · have hstart : i % 2 ^ 64 = 0 := by rw [hi, hwrap, Nat.mod_self]
      refine ⟨touched db 0, ?_⟩
      rw [hstart, serializedBlocksLoop, if_pos (Nat.zero_le _),
        run_bind_of_ok (getSerialized_of_not_held hzero), if_pos ⟨rfl, hwrap⟩]
      simp only [sentFrom, List.map_nil, List.append_nil]
      rfl
    · refine ⟨db, ?_⟩
      rw [Nat.mod_eq_of_lt (by omega), serializedBlocksLoop, if_neg (by omega),
        if_neg fun h => hwrap h.2]
      simp only [sentFrom, List.map_nil, List.append_nil, List.flatten_nil]
      rfl
  | cons block blocks ih =>
    obtain ⟨turns, rfl⟩ := Nat.exists_eq_succ_of_ne_zero (Nat.ne_of_gt (Nat.zero_lt_of_lt hturns))
    obtain ⟨hhere, hsane⟩ : held db i = some block ∧ Sane block := hheld 0 block rfl
    have hcount : byteCount (block :: blocks) = block.length + byteCount blocks := rfl
    rw [List.length_cons] at hid hturns
    rw [Nat.mod_eq_of_lt (by omega : i < 2 ^ 64),
      serializedBlocksLoop_run (by omega) hhere hsane (by omega)]
    unfold sentFrom
    by_cases hover : maxSize < totalSize + block.length
    · refine ⟨touched db i, ?_⟩
      rw [if_pos ⟨hover, hsizes⟩, if_pos hover, if_neg fun h => List.cons_ne_nil _ _ h.1.symm]
      simp
    · rw [if_neg fun h => hover h.1, if_neg hover]
      have hzero' : held (touched db i) 0 = none := (held_touched db i 0).trans hzero
      obtain ⟨db', hrun⟩ := @ih (touched db i) turns (i + 1) (totalSize + block.length)
        (blockSizes ++ [block.length]) (serializedBlocks ++ block) (by omega) (hheld.tail i) hzero'
        (by simp) (by omega) (by omega)
      refine ⟨db', hrun.trans ?_⟩
      simp only [List.map_cons, List.flatten_cons, List.append_assoc, List.singleton_append,
        List.cons_inj_right]

/-- The blocks from the first on, as many as fit. -/
def sent (maxSize : ℕ) (first : Bytes) (rest : List Bytes) : List Bytes :=
  first :: sentFrom maxSize first.length rest

/-- What the server answers. -/
theorem createBlockCatchupResponse_run {first : Bytes} {rest : List Bytes} {turns last stamp s : ℕ}
    (hid : s + (rest.length + 1) = last) (hlast : last < 2 ^ 64)
    (hheld : HoldsFrom db (s + 1) (first :: rest)) (hzero : held db 0 = none)
    (hfits : byteCount (first :: rest) < 2 ^ 64) (hturns : rest.length + 1 < turns) :
    ∃ db', (createBlockCatchupResponse maxSize turns last stamp s).run db = .ok
      (if sentFrom maxSize first.length rest = rest ∧ last + 1 = 2 ^ 64 then
        (catchupResponseHeader 4 23 none 0 0, none)
      else (catchupResponseHeader 1 0 (some ((sent maxSize first rest).map List.length)) last stamp,
        some (91 :: (sent maxSize first rest).flatten ++ [93]))) db' := by
  obtain ⟨turns, rfl⟩ := Nat.exists_eq_succ_of_ne_zero (Nat.ne_of_gt (Nat.zero_lt_of_lt hturns))
  obtain ⟨hfirst, hsane⟩ : held db (s + 1) = some first ∧ Sane first := hheld 0 first rfl
  have hcount : byteCount (first :: rest) = first.length + byteCount rest := rfl
  have hzero' : held (touched db (s + 1)) 0 = none := (held_touched db (s + 1) 0).trans hzero
  -- The first block is never refused.
  have hstep := @serializedBlocksLoop_run maxSize last db turns (s + 1) 0 [] [91] first (by omega)
    hfirst hsane (by omega)
  rw [if_neg fun h => Nat.lt_irrefl 0 h.2, Nat.zero_add] at hstep
  obtain ⟨db', hloop⟩ := @serializedBlocksLoop_eq maxSize last (touched db (s + 1)) rest turns
    (s + 1 + 1) first.length [first.length] ([91] ++ first) (by omega) hlast (hheld.tail (s + 1))
    hzero' Nat.one_pos (by omega) (by omega)
  refine ⟨db', ?_⟩
  unfold createBlockCatchupResponse
  rw [if_neg (by omega)]
  refine run_adaptExcept_eq_ok.mpr ?_
  have hrun := hstep.trans hloop
  split_ifs with hall
  · rw [if_pos hall] at hrun
    exact run_bind_eq_ok.mpr ⟨_, _, run_bind_eq_ok.mpr ⟨_, _, hrun, rfl⟩, rfl⟩
  · rw [if_neg hall] at hrun
    exact run_bind_eq_ok.mpr ⟨_, _, run_bind_eq_ok.mpr ⟨_, _, hrun, rfl⟩, rfl⟩

end Loop

/-! ### What the client reads -/

/-- The bytes of a block, if no check throws. -/
def bytesOf (blake3 : Bytes → Hash) (dump : Json → Bytes) (block : CommittedBlock) : Bytes :=
  leBytes 8 (block.headerText blake3 dump).length ++ block.headerText blake3 dump ++
    TransactionList.serialize blake3 block.transactionList true

/-- The signatures that a client asks of a block are there and verify, whatever session keys it has
cached. -/
structure Verifies (r : BlockReader) (block : CommittedBlock) : Prop where
  proposer : Verified r block.toBlockProposal
  threshold : r.verifyBlockSig block = true
  da : block.isLegacy = false → ∀ cache, ∃ cache', (r.verifyDaSig block).run cache = .ok () cache'
  patch : r.verifyDASigsPatch block.timeStamp = true → block.proposerIndex ≠ 0 → block.daSig ≠ []

/-- The libraries read the block as they wrote it, and its signatures verify. -/
structure Readable (r : BlockReader) (dump : Json → Bytes) (block : CommittedBlock) : Prop where
  printed : Printed r block.toBlockProposal (block.headerText r.cm.blake3 dump)
    (block.createBlockHeader r.cm.blake3).addFields
  written : block.serialize r.cm.blake3 dump = .ok (bytesOf r.cm.blake3 dump block)
  verifies : Verifies r block

section Client
variable {r : BlockReader} {dump : Json → Bytes} {block : CommittedBlock}

theorem Readable.short (h : Readable r dump block) :
    (block.headerText r.cm.blake3 dump).length + 8 ≤ MAX_BUFFER_SIZE := by
  obtain ⟨s, hs, hrest⟩ := bind_eq_ok.mp h.written
  obtain ⟨buf, hbuf, -⟩ := bind_eq_ok.mp hrest
  have hshort := short_of_headerBuffer hbuf
  rwa [eq_dump_of_fieldsToString hs] at hshort

theorem Readable.sane (h : Readable r dump block) : Sane (bytesOf r.cm.blake3 dump block) :=
  h.printed.ends block.transactionList

theorem Readable.deserializeBlock (h : Readable r dump block)
    (hdigest : Hasher r.cm.blake3) (cache : SessionCache) :
    ∃ cache', (r.deserializeBlock (bytesOf r.cm.blake3 dump block) true).run cache =
      .ok block cache' := by
  have hparse := parseBlock_eq hdigest h.printed h.short
  have hthreshold : (!r.verifyBlockSig block) = false := by rw [h.verifies.threshold]; rfl
  have hda : ∃ cache', (if (!block.isLegacy) = true then do
        EStateM.adaptExcept (fun _ => "Block da signature did not verify in deserialization")
          (r.verifyDaSig block)
        pure block
      else pure block : EStateM String SessionCache CommittedBlock).run cache =
        .ok block cache' := by
    split_ifs with hlegacy
    · obtain ⟨cache', hverify⟩ := h.verifies.da (by simpa using hlegacy) cache
      exact ⟨cache', run_bind_eq_ok.mpr ⟨(), cache', run_adaptExcept_eq_ok.mpr hverify, rfl⟩⟩
    · exact ⟨cache, rfl⟩
  unfold BlockReader.deserializeBlock bytesOf
  rw [hparse]
  dsimp only
  rw [if_pos rfl, hthreshold]
  by_cases hindex : ((block.createBlockHeader r.cm.blake3).proposerIndex != 0) = true
  · have hproposer : block.verifyProposalECDSA r.cm
        (block.createBlockHeader r.cm.blake3).blockHash
        (block.createBlockHeader r.cm.blake3).signature = .ok () :=
      h.verifies.proposer (bne_iff_ne.mp hindex)
    rw [if_pos hindex, hproposer]
    exact hda
  · rw [if_neg hindex]
    exact hda

/-- One turn of the loop cuts out the block that stands there. -/
theorem Readable.readBlock (h : Readable r dump block)
    (hdigest : Hasher r.cm.blake3) (before after : Bytes)
    (cache : SessionCache) :
    ∃ cache', (r.readBlock (before ++ bytesOf r.cm.blake3 dump block ++ after) before.length
      (bytesOf r.cm.blake3 dump block).length).run cache = .ok block cache' := by
  obtain ⟨cache', hread⟩ := h.deserializeBlock hdigest cache
  generalize bytesOf r.cm.blake3 dump block = bytes at hread ⊢
  have htotal : before.length + bytes.length ≤ (before ++ bytes ++ after).length := by
    rw [List.length_append, List.length_append]
    omega
  have hslice : slice (before ++ bytes ++ after) before.length bytes.length = .ok bytes := by
    unfold slice
    rw [if_neg (Nat.not_lt.mpr htotal), List.append_assoc, List.drop_left, List.take_left]
    rfl
  refine ⟨cache', ?_⟩
  unfold BlockReader.readBlock
  rw [run_checkState_bind_of_true (decide_eq_true ((Nat.mod_le _ _).trans htotal)), hslice]
  dsimp only
  rw [run_bind_of_ok hread, if_neg]
  · rfl
  · simp only [Bool.and_eq_true, bne_iff_ne, List.isEmpty_iff]
    rintro ⟨⟨hpatch, hindex⟩, hempty⟩
    exact h.verifies.patch hpatch hindex hempty

/-- The loop takes the blocks apart where they were put together. -/
theorem readBlocks_of_readable {blocks : List CommittedBlock}
    (h : ∀ block ∈ blocks, Readable r dump block)
    (hdigest : Hasher r.cm.blake3) (before after : Bytes)
    (cache : SessionCache) :
    ∃ cache', r.readBlocks (before ++ (blocks.map (bytesOf r.cm.blake3 dump)).flatten ++ after)
      before.length ((blocks.map (bytesOf r.cm.blake3 dump)).map List.length) cache =
        (blocks, none, cache') := by
  induction blocks generalizing before cache with
  | nil => exact ⟨cache, rfl⟩
  | cons block blocks ih =>
    obtain ⟨cache₁, hread⟩ := (h block List.mem_cons_self).readBlock hdigest before
      ((blocks.map (bytesOf r.cm.blake3 dump)).flatten ++ after) cache
    obtain ⟨cache₂, hrest⟩ := ih (fun b hb => h b (List.mem_cons_of_mem _ hb))
      (before ++ bytesOf r.cm.blake3 dump block) cache₁
    rw [List.length_append] at hrest
    refine ⟨cache₂, ?_⟩
    simp only [List.map_cons, List.flatten_cons, BlockReader.readBlocks]
    simp only [List.append_assoc] at hread hrest ⊢
    rw [hread]
    dsimp only
    rw [hrest]

theorem deserializeBlockList_of_readable {blocks : List CommittedBlock}
    (h : ∀ block ∈ blocks, Readable r dump block)
    (hdigest : Hasher r.cm.blake3) (cache : SessionCache) :
    ∃ cache', (r.deserializeBlockList ((blocks.map (bytesOf r.cm.blake3 dump)).map List.length)
      (91 :: (blocks.map (bytesOf r.cm.blake3 dump)).flatten ++ [93]) 0 true).run cache =
        .ok blocks cache' := by
  obtain ⟨cache', hread⟩ := readBlocks_of_readable h hdigest [91] [93] cache
  refine ⟨cache', ?_⟩
  have hlast : (91 :: (blocks.map (bytesOf r.cm.blake3 dump)).flatten ++ [93]).getLast? =
      some 93 := List.getLast?_concat
  unfold BlockReader.deserializeBlockList
  rw [if_neg (by simp)]
  refine run_bind_eq_ok.mpr ⟨(), cache, rfl, run_bind_eq_ok.mpr ⟨(), cache, ?_, ?_⟩⟩
  · exact checkArgument_run_eq_ok.mpr ⟨beq_iff_eq.mpr hlast, rfl⟩
  · rw [run_get_bind]
    have hstart : r.readBlocks (91 :: (blocks.map (bytesOf r.cm.blake3 dump)).flatten ++ [93])
        (0 + 1) ((blocks.map (bytesOf r.cm.blake3 dump)).map List.length) cache =
          (blocks, none, cache') := hread
    rw [hstart]
    rfl

/-- The client takes the sizes if their sum is within its limit. -/
theorem parseBlockSizes_response {sizes : List ℕ} (hne : sizes ≠ []) (hleast : 4 ≤ sizes.sum)
    (hfits : sizes.sum < 2 ^ 64) (maxBytes last stamp : ℕ) :
    parseBlockSizes maxBytes (catchupResponseHeader 1 0 (some sizes) last stamp) =
      if maxBytes < sizes.sum then .error "totalSize > getNode()->getMaxCatchupDownloadBytes()"
      else .ok (sizes, sizes.sum + 2) := by
  have hsizes : ∀ size ∈ sizes, size < 2 ^ 64 := fun size hsize =>
    (List.le_sum_of_mem hsize).trans_lt hfits
  have hfind : (catchupResponseHeader 1 0 (some sizes) last stamp).find? "sizes" =
      some (.array (sizes.map fun size => .number (.ofNat size))) := rfl
  have hempty : (sizes.map fun size => Json.number (.ofNat size)).isEmpty = false :=
    List.isEmpty_eq_false_iff.mpr (mt List.map_eq_nil_iff.mp hne)
  unfold parseBlockSizes
  rw [hfind]
  dsimp only
  rw [hempty, mapM_toUint64 sizes hsizes]
  dsimp only [bind, Except.bind]
  rw [Nat.mod_eq_of_lt hfits, if_neg Bool.false_ne_true, if_neg (Nat.not_lt.mpr hleast)]
  split_ifs <;> rfl

end Client

/-! ### Server and client -/

/-- The database of the server holds the blocks behind `s` up to the last, with signatures that the
client verifies. Ids start at 1, and what is stored fits a vector. -/
structure Serves (r : BlockReader) (dump : Json → Bytes) (db : BlockDB) (s last : ℕ)
    (blocks : List CommittedBlock) : Prop where
  length : s + blocks.length = last
  range : last < 2 ^ 64
  stored : ∀ k block, blocks[k]? = some block → block.blockID = s + 1 + k ∧
    held db (s + 1 + k) = some (bytesOf r.cm.blake3 dump block) ∧ Readable r dump block
  zero : held db 0 = none
  fits : byteCount (blocks.map (bytesOf r.cm.blake3 dump)) < 2 ^ 64

/-- The answer of the server is read, and yields the first of the blocks, one at least. -/
def Compatible (n : Node) (db : BlockDB) (maxBytes turns s last stamp : ℕ)
    (blocks : List CommittedBlock) : Prop :=
  ∃ response data db', (createBlockCatchupResponse maxBytes turns last stamp s).run db =
      .ok (response, some data) db' ∧
    ∃ k, 0 < k ∧ k ≤ blocks.length ∧ ∀ cache, ∃ cache',
      (readMissingBlocks n maxBytes response (some data)).run cache = .ok (blocks.take k) cache'

section Compatible
variable {n : Node} {dump : Json → Bytes} {db : BlockDB} {maxBytes s last : ℕ}
  {blocks : List CommittedBlock}

theorem Serves.holdsFrom (h : Serves n.toBlockReader dump db s last blocks) :
    HoldsFrom db (s + 1) (blocks.map (bytesOf n.cm.blake3 dump)) := by
  intro k bytes hbytes
  rw [List.getElem?_map, Option.map_eq_some_iff] at hbytes
  obtain ⟨block, hblock, rfl⟩ := hbytes
  obtain ⟨-, hheld, hreadable⟩ := h.stored k block hblock
  exact ⟨hheld, hreadable.sane⟩

theorem Serves.readable (h : Serves n.toBlockReader dump db s last blocks) :
    ∀ block ∈ blocks, Readable n.toBlockReader dump block := by
  intro block hblock
  obtain ⟨k, hk⟩ := List.mem_iff_getElem?.mp hblock
  exact (h.stored k block hk).2.2

theorem byteCount_le_of_initial {blocks blocks' : List Bytes} (h : blocks <+: blocks') :
    byteCount blocks ≤ byteCount blocks' := by
  obtain ⟨rest, rfl⟩ := h
  simp only [byteCount, List.map_append, List.sum_append]
  exact Nat.le_add_right _ _

theorem eight_le_length_bytesOf (blake3 : Bytes → Hash) (block : CommittedBlock) :
    8 ≤ (bytesOf blake3 dump block).length := by
  unfold bytesOf
  rw [List.length_append, List.length_append, length_leBytes]
  omega

theorem exists_sent_eq_map (first : CommittedBlock) (rest : List CommittedBlock)
    (bytes : CommittedBlock → Bytes) :
    ∃ k ≤ rest.length, sent maxBytes (bytes first) (rest.map bytes) =
      ((first :: rest).take (k + 1)).map bytes := by
  have hprefix := @sentFrom_initial maxBytes (bytes first).length (rest.map bytes)
  refine ⟨(sentFrom maxBytes (bytes first).length (rest.map bytes)).length, ?_, ?_⟩
  · have hlength := hprefix.length_le
    rwa [List.length_map] at hlength
  · rw [List.take_succ_cons, List.map_cons, List.map_take]
    exact congrArg _ (List.prefix_iff_eq_take.mp hprefix)

/-- What the client makes of the blocks it is sent. -/
theorem readMissingBlocks_run (hread : ∀ block ∈ blocks, Readable n.toBlockReader dump block)
    (hdigest : Hasher n.cm.blake3) (hne : blocks ≠ [])
    (hfits : byteCount (blocks.map (bytesOf n.cm.blake3 dump)) < 2 ^ 64) (last stamp : ℕ)
    (cache : SessionCache) :
    ∃ cache', (readMissingBlocks n maxBytes (catchupResponseHeader 1 0
        (some ((blocks.map (bytesOf n.cm.blake3 dump)).map List.length)) last stamp)
        (some (91 :: (blocks.map (bytesOf n.cm.blake3 dump)).flatten ++ [93]))).run cache =
      if maxBytes < byteCount (blocks.map (bytesOf n.cm.blake3 dump)) then
        .error "totalSize > getNode()->getMaxCatchupDownloadBytes()" cache
      else .ok blocks cache' := by
  have hsum : ((blocks.map (bytesOf n.cm.blake3 dump)).map List.length).sum =
      byteCount (blocks.map (bytesOf n.cm.blake3 dump)) := rfl
  have hleast : 4 ≤ byteCount (blocks.map (bytesOf n.cm.blake3 dump)) := by
    obtain ⟨first, rest, rfl⟩ := List.exists_cons_of_ne_nil hne
    have hfirst := @eight_le_length_bytesOf dump n.cm.blake3 first
    simp only [byteCount, List.map_cons, List.sum_cons]
    omega
  have hsizes : (blocks.map (bytesOf n.cm.blake3 dump)).map List.length ≠ [] := by simpa using hne
  have hparse := parseBlockSizes_response hsizes hleast hfits maxBytes last stamp
  unfold readMissingBlocks
  rw [hparse, hsum]
  split_ifs with hover
  · exact ⟨cache, rfl⟩
  · have hdata : (91 :: (blocks.map (bytesOf n.cm.blake3 dump)).flatten ++ [93]).length =
        byteCount (blocks.map (bytesOf n.cm.blake3 dump)) + 2 := by
      rw [List.cons_append, List.length_cons, List.length_append, List.length_flatten]
      rfl
    obtain ⟨cache', hlist⟩ := deserializeBlockList_of_readable hread hdigest cache
    refine ⟨cache', ?_⟩
    dsimp only
    rw [if_neg (not_not.mpr hdata)]
    refine run_bind_eq_ok.mpr ⟨blocks, cache', hlist, ?_⟩
    rw [if_neg fun h => hne (List.isEmpty_iff.mp h.2)]
    rfl

variable {first : CommittedBlock} {rest : List CommittedBlock} {turns : ℕ}

/-- The answer of the server, and what the client makes of it. -/
theorem Serves.exchange (h : Serves n.toBlockReader dump db s last (first :: rest))
    (hdigest : Hasher n.cm.blake3) (hturns : rest.length + 1 < turns)
    (maxBytes stamp : ℕ) :
    let bytes := bytesOf n.cm.blake3 dump
    let behind := sentFrom maxBytes (bytes first).length (rest.map bytes)
    ∃ k ≤ rest.length, ∃ response data db',
      (createBlockCatchupResponse maxBytes turns last stamp s).run db = .ok
        (if behind = rest.map bytes ∧ last + 1 = 2 ^ 64 then
          (catchupResponseHeader 4 23 none 0 0, none)
        else (response, some data)) db' ∧
      ∀ cache, ∃ cache', (readMissingBlocks n maxBytes response (some data)).run cache =
        if maxBytes < (bytes first).length + byteCount behind then
          .error "totalSize > getNode()->getMaxCatchupDownloadBytes()" cache
        else .ok ((first :: rest).take (k + 1)) cache' := by
  intro bytes behind
  have hlength : s + (rest.length + 1) = last := h.length
  obtain ⟨db', hrun⟩ := @createBlockCatchupResponse_run maxBytes db (bytes first) (rest.map bytes)
    turns last stamp s (by rwa [List.length_map]) h.range h.holdsFrom h.zero h.fits
    (by rwa [List.length_map])
  obtain ⟨k, hk, hsent⟩ := @exists_sent_eq_map maxBytes first rest bytes
  have hcount : byteCount (((first :: rest).take (k + 1)).map bytes) =
      (bytes first).length + byteCount behind := by
    rw [← hsent]
    rfl
  rw [hsent] at hrun
  refine ⟨k, hk, _, _, db', hrun, fun cache => ?_⟩
  rw [← hcount]
  exact @readMissingBlocks_run n dump maxBytes ((first :: rest).take (k + 1))
    (fun block hblock => h.readable block (List.mem_of_mem_take hblock)) hdigest nofun
    ((byteCount_le_of_initial ((List.take_prefix _ _).map _)).trans_lt h.fits) last stamp cache

/-- A first block over the limit is sent, and refused. -/
theorem Serves.length_le_of_compatible (h : Serves n.toBlockReader dump db s last (first :: rest))
    (hdigest : Hasher n.cm.blake3) (hturns : rest.length + 1 < turns)
    {stamp : ℕ} (hcompatible : Compatible n db maxBytes turns s last stamp (first :: rest)) :
    (bytesOf n.cm.blake3 dump first).length ≤ maxBytes := by
  by_contra hover
  obtain ⟨k, -, response, data, db', hrun, hclient⟩ := h.exchange hdigest hturns maxBytes stamp
  obtain ⟨response', data', db'', hrun', k', -, -, hread'⟩ := hcompatible
  obtain ⟨cache', hread⟩ := hclient .empty
  obtain ⟨cache'', hread''⟩ := hread' .empty
  rw [if_pos (by omega)] at hread
  split_ifs at hrun with hwrap
  · cases hrun.symm.trans hrun'
  · cases hrun.symm.trans hrun'
    cases hread.symm.trans hread''

end Compatible

/-- What the server sends is what the client reads, if and only if the first block alone is within
the limit on a download, and the blocks do not end with the greatest id of all while all of them
are within it. -/
theorem compatible_iff (n : Node) (hdigest : ∀ x, (n.cm.blake3 x).length = HASH_LEN)
    (dump : Json → Bytes) (db : BlockDB) (maxBytes turns s last stamp : ℕ)
    (first : CommittedBlock) (rest : List CommittedBlock)
    (h : Serves n.toBlockReader dump db s last (first :: rest)) (hturns : rest.length + 1 < turns) :
    Compatible n db maxBytes turns s last stamp (first :: rest) ↔
      (bytesOf n.cm.blake3 dump first).length ≤ maxBytes ∧
        (last + 1 < 2 ^ 64 ∨
          maxBytes < byteCount ((first :: rest).map (bytesOf n.cm.blake3 dump))) := by
  have hrange := h.range
  have hcount : byteCount ((first :: rest).map (bytesOf n.cm.blake3 dump)) =
      (bytesOf n.cm.blake3 dump first).length +
        byteCount (rest.map (bytesOf n.cm.blake3 dump)) := rfl
  by_cases hfirst : (bytesOf n.cm.blake3 dump first).length ≤ maxBytes
  · obtain ⟨k, hk, response, data, db', hrun, hclient⟩ := h.exchange hdigest hturns maxBytes stamp
    have hall := sentFrom_eq_self_iff hfirst (rest.map (bytesOf n.cm.blake3 dump))
    have hle := byteCount_sentFrom_le hfirst (rest.map (bytesOf n.cm.blake3 dump))
    split_ifs at hrun with hwrap
    · -- The loop has gone on at block 0, which is not there.
      have hcountle := hall.mp hwrap.1
      refine iff_of_false ?_ (by omega)
      rintro ⟨response', data', db'', hrun', -⟩
      cases hrun.symm.trans hrun'
    · refine iff_of_true ⟨response, data, db', hrun, k + 1, k.succ_pos, Nat.succ_le_succ hk, ?_⟩
        ⟨hfirst, ?_⟩
      · intro cache
        obtain ⟨cache', hread⟩ := hclient cache
        rw [if_neg (by omega)] at hread
        exact ⟨cache', hread⟩
      · by_contra hnot
        exact hwrap ⟨hall.mpr (by omega), by omega⟩
  · exact iff_of_false (fun hcompatible => hfirst (h.length_le_of_compatible hdigest hturns
      hcompatible)) fun hright => hfirst hright.1

/-! ### One block -/

/-- A block from before DA signatures. -/
def loneBlock : CommittedBlock := {smallBlock with daSig := []}

def rejoining : Node :=
  {Node.ofFour with
    cm := {fourSigners [] [] with
      blake3 := fun _ => zeros
      verifyECDSA := fun _ _ sig => sig == textBytes "sig"}
    json := fun text =>
      if text = loneBlock.headerText (fun _ => zeros) printHeader then
        some (loneBlock.createBlockHeader fun _ => zeros).addFields
      else none
    verifyThresholdSig := fun sig _ _ _ => sig == textBytes "thr"}

def loneBytes : Bytes := bytesOf rejoining.cm.blake3 printHeader loneBlock

def oneBlockDB : BlockDB :=
  {BlockDB.make ∅ with
    db := (CacheLevelDB.make ∅).writeByteArray false (createBlockKey 1) loneBytes}

theorem json_loneBlock :
    rejoining.json (loneBlock.headerText rejoining.cm.blake3 printHeader) =
      some (loneBlock.createBlockHeader rejoining.cm.blake3).addFields := by
  have hjson : rejoining.json = fun text =>
      if text = loneBlock.headerText rejoining.cm.blake3 printHeader then
        some (loneBlock.createBlockHeader rejoining.cm.blake3).addFields
      else none := rfl
  rw [hjson]
  exact if_pos rfl

theorem readable_loneBlock : Readable rejoining.toBlockReader printHeader loneBlock where
  printed :=
    { head := by decide +kernel
      last := by decide +kernel
      long := by decide +kernel
      json := json_loneBlock
      u256 := by decide +kernel
      fits := by decide +kernel }
  written := by decide +kernel
  verifies :=
    { proposer := fun _ => by decide +kernel
      threshold := by decide +kernel
      da := fun h => absurd h (by decide)
      patch := fun h => absurd h (by decide) }

theorem serves_loneBlock :
    Serves rejoining.toBlockReader printHeader oneBlockDB 0 1 [loneBlock] where
  length := rfl
  range := by decide
  stored k block hblock := by
    cases k with
    | zero =>
      cases hblock
      exact ⟨rfl, by decide +kernel, readable_loneBlock⟩
    | succ k => cases hblock
  zero := by decide +kernel
  fits := by decide +kernel

/-- The server sends its block to a client without blocks. -/
theorem compatible_loneBlock : Compatible rejoining oneBlockDB 1000 3 0 1 0 [loneBlock] :=
  (compatible_iff rejoining (fun _ => List.length_replicate) printHeader oneBlockDB 1000 3 0 1 0
    loneBlock [] serves_loneBlock (by decide)).mpr ⟨by decide +kernel, by decide⟩

/-- With a limit below the size of the block, the server still sends it, and the client refuses. -/
theorem not_compatible_loneBlock :
    Serves rejoining.toBlockReader printHeader oneBlockDB 0 1 [loneBlock] ∧
      ¬ Compatible rejoining oneBlockDB 100 3 0 1 0 [loneBlock] := by
  refine ⟨serves_loneBlock, fun hcompatible => ?_⟩
  have hle := serves_loneBlock.length_le_of_compatible (fun _ => List.length_replicate) (by decide)
    hcompatible
  exact absurd hle (by decide +kernel)

end SkaleConsensus.Catchup
