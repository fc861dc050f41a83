import SkaleConsensus.BinConsensus.Orderly
import SkaleConsensus.BinConsensus.Safety

/-! When there are enough shares for a coin.

The lottery of a round waits for AUX votes of two thirds of the nodes, and from the
common coin round on every vote comes with the share of its sender, so that there
should be enough shares. But a node that votes for both values is counted twice and
has one share. With such a node among them, two thirds of the votes are not two
thirds of the nodes, and `calculateBLSRandom` throws (`double_voter_no_coin`).

`coin_available_iff`: the shares are enough exactly if the votes are still two
thirds when every node is counted once. -/
namespace SkaleConsensus.BinConsensus
open Library Relation

/-! ### The shares that are collected -/

def signers (shares : List SigShare) : Finset SchainIndex :=
  (shares.map SigShare.signerIndex).toFinset

/-- A `BLSSigShareSet` has one share a signer, and is complete with the required signers. -/
structure ShareSetLaws (c : Schain) : Prop where
  addSigShare : ∀ shares share,
    signers (c.addSigShare shares share) = insert share.signerIndex (signers shares)
  isEnough : ∀ shares,
    c.isEnough shares = decide (getRequiredSigners c.nodeCount ≤ (signers shares).card)

/-- Every vote has the share of its node. -/
def Signed (votes : List (SchainIndex × Option SigShare)) : Prop :=
  ∀ e ∈ votes, ∃ share, e.2 = some share ∧ share.signerIndex = e.1

/-- The nodes of some votes. -/
def voters (votes : List (SchainIndex × Option SigShare)) : Finset SchainIndex :=
  (votes.map Prod.fst).toFinset

/-- What one loop of `calculateBLSRandom` makes of the shares it starts with: it adds only
shares of the voters, and all of them unless it has enough before. -/
structure Collected (c : Schain) (before : List SigShare)
    (votes : List (SchainIndex × Option SigShare)) (after : List SigShare) : Prop where
  grows : signers before ⊆ signers after
  bounded : signers after ⊆ signers before ∪ voters votes
  complete : c.isEnough after = true ∨ signers after = signers before ∪ voters votes

section Collect
variable {c : Schain} {votes : List (SchainIndex × Option SigShare)}

theorem addShares_collected (hlaws : ShareSetLaws c) (before : List SigShare)
    (hvotes : Signed votes) :
    ∃ after, addShares c before votes = .ok after ∧ Collected c before votes after := by
  induction votes generalizing before with
  | nil =>
    have hnone : signers before ∪ voters [] = signers before := Finset.union_empty _
    exact ⟨before, rfl, subset_rfl, hnone.ge, .inr hnone.symm⟩
  | cons vote rest ih =>
    obtain ⟨i, share⟩ := vote
    obtain ⟨x, rfl, hx⟩ := hvotes _ List.mem_cons_self
    change x.signerIndex = i at hx
    have hone : signers (c.addSigShare before x) = insert i (signers before) := by
      rw [hlaws.addSigShare, hx]
    have hall : signers (c.addSigShare before x) ∪ voters rest =
        signers before ∪ voters ((i, some x) :: rest) := by
      unfold voters
      rw [hone, List.map_cons, List.toFinset_cons, Finset.insert_union, Finset.union_insert]
    have hgrows : signers before ⊆ signers (c.addSigShare before x) := by
      rw [hone]
      exact Finset.subset_insert ..
    rw [addShares]
    split_ifs with henough
    · refine ⟨_, rfl, hgrows, ?_, .inl henough⟩
      rw [← hall]
      exact Finset.subset_union_left
    · obtain ⟨after, hrun, hafter⟩ := ih (c.addSigShare before x) fun e he =>
        hvotes e (List.mem_cons_of_mem _ he)
      refine ⟨after, hrun, hgrows.trans hafter.grows, ?_, ?_⟩
      · rw [← hall]
        exact hafter.bounded
      · rw [← hall]
        exact hafter.complete

theorem isEnough_mono (hlaws : ShareSetLaws c) {shares shares' : List SigShare}
    (hsub : signers shares ⊆ signers shares') (h : c.isEnough shares = true) :
    c.isEnough shares' = true := by
  rw [hlaws.isEnough, decide_eq_true_eq] at h ⊢
  exact h.trans (Finset.card_le_card hsub)

/-- The two loops together. -/
theorem collectShares_collected (hlaws : ShareSetLaws c) {s : BinConsensusInstance} {r : ℕ}
    (hvotes : ∀ b, Signed (s.verifiedVotes b r)) :
    ∃ shares, collectShares c s r = .ok shares ∧
      (c.isEnough shares = true ↔ getRequiredSigners c.nodeCount ≤
        (voters (s.verifiedVotes true r) ∪ voters (s.verifiedVotes false r)).card) := by
  obtain ⟨first, hfirst, hfrom⟩ := addShares_collected hlaws [] (hvotes true)
  obtain ⟨shares, hshares, hmore⟩ := addShares_collected hlaws first (hvotes false)
  have hnone : signers [] ∪ voters (s.verifiedVotes true r) = voters (s.verifiedVotes true r) :=
    Finset.empty_union _
  refine ⟨shares, ?_, ?_⟩
  · unfold collectShares
    rw [hfirst]
    exact hshares
  · have hbound : signers shares ⊆
        voters (s.verifiedVotes true r) ∪ voters (s.verifiedVotes false r) := by
      refine hmore.bounded.trans (Finset.union_subset_union_left ?_)
      rw [← hnone]
      exact hfrom.bounded
    constructor
    · intro henough
      rw [hlaws.isEnough, decide_eq_true_eq] at henough
      exact henough.trans (Finset.card_le_card hbound)
    · intro hcard
      -- a loop that stopped early had enough
      rcases hmore.complete with henough | hall
      · exact henough
      rcases hfrom.complete with henough | hfirstAll
      · exact isEnough_mono hlaws hmore.grows henough
      rw [hlaws.isEnough, hall, hfirstAll, hnone]
      exact decide_eq_true hcard

end Collect

/-! ### The votes of an instance -/

/-- From the common coin round on, every AUX vote has the share of its node. -/
def VotesSigned (s : Exec) : Prop :=
  ∀ b r, COMMON_COIN_ROUND ≤ r → Signed (s.inst.auxVotes b r).entries

/-- A share is made in the name of the sender of its message. -/
def OwnShare (me : MessageEnvelope) : Prop :=
  ∀ share ∈ me.message.sigShare, share.signerIndex = me.srcSchainIndex

/-- The node's own shares are its own. -/
def SignsAsItself (c : Schain) : Prop :=
  ∀ hash blockID r, (c.signBinaryConsensusSigShare hash blockID r).signerIndex = c.schainIndex

section Votes
variable {c : Schain} {me : MessageEnvelope} {V : Value → Prop} {s s' : Exec}

theorem VotesSigned.auxVote (h : VotesSigned s) {r : ℕ} {v : Value} {i : SchainIndex}
    {share : Option SigShare}
    (hshare : COMMON_COIN_ROUND ≤ r → ∃ x, share = some x ∧ x.signerIndex = i) :
    VotesSigned (s.auxVote r v i share) := by
  intro b r' hr' e he
  have hcases : e ∈ (s.inst.auxVotes b r').entries ∨ r' = r ∧ e = (i, share) := by
    revert he
    unfold Exec.auxVote BinConsensusInstance.auxVoteCore BinConsensusInstance.auxVotes
    cases v.toBool <;> cases b <;> by_cases hr : r' = r
    all_goals
      first
      | subst hr
        simp only [Function.update_self, if_true, if_false, Bool.false_eq_true]
        intro he
        first
        | exact .inl he
        | exact (OrderedMap.mem_emplace he).symm.imp_right fun heq => ⟨trivial, heq⟩
      | simp only [Function.update_of_ne hr, if_true, if_false, Bool.false_eq_true]
        exact .inl
  rcases hcases with hold | ⟨rfl, rfl⟩
  · exact h b r' hr' e hold
  · exact hshare hr'

theorem share_of_auxVoteShare {m : Message} {share : Option SigShare}
    (h : auxVoteShare c m = .ok share) (hr : COMMON_COIN_ROUND ≤ m.r) :
    ∃ x ∈ m.sigShare, share = some x := by
  unfold auxVoteShare at h
  rw [if_pos hr] at h
  split at h
  · cases h
  · next x hx =>
    split_ifs at h
    cases h
    exact ⟨x, hx, rfl⟩

theorem VotesSigned.move (h : VotesSigned s) (hc : SignsAsItself c) (hme : OwnShare me)
    (hmove : Move c me V s s') : VotesSigned s' := by
  cases hmove with
  | auxVote share hshare =>
    refine h.auxVote fun hr => ?_
    obtain ⟨x, hx, rfl⟩ := share_of_auxVoteShare hshare hr
    exact ⟨x, rfl, hme x hx⟩
  | firstBinValue r v hv hempty =>
    refine VotesSigned.auxVote (s := s.binValue r v) h fun hr => ?_
    unfold Exec.coinShare
    rw [if_pos hr]
    exact ⟨_, rfl, hc _ _ _⟩
  | _ => exact h

theorem VotesSigned.moves (h : VotesSigned s) (hc : SignsAsItself c) (hme : OwnShare me)
    (hmoves : Moves c me V s s') : VotesSigned s' := by
  induction hmoves with
  | refl => exact h
  | tail _ hmove ih => exact ih.move hc hme hmove

theorem VotesSigned.handle (h : VotesSigned s) (hs : DecidedBinary s) (hc : SignsAsItself c)
    (hme : OwnShare me) : VotesSigned (handle c s me) :=
  h.moves hc hme (processMessage_sound (V := Meant me) (fun _ => .inl) (.inr rfl) hs).moves

theorem VotesSigned.handleAll (h : VotesSigned s) (hs : Orderly s) (hc : SignsAsItself c)
    {envelopes : List MessageEnvelope} (hall : ∀ me ∈ envelopes, OwnShare me) :
    VotesSigned (envelopes.foldl (BinConsensus.handle c) s) := by
  induction envelopes generalizing s with
  | nil => exact h
  | cons me rest ih =>
    exact ih (h.handle hs.binary hc (hall me List.mem_cons_self)) (hs.handle me)
      fun me' hme' => hall me' (List.mem_cons_of_mem me hme')

end Votes

/-! ### Enough nodes -/

/-- The nodes that the quorum of a round counts twice. -/
def BinConsensusInstance.countedTwice (s : BinConsensusInstance) (r : ℕ) : Finset SchainIndex :=
  voters (s.verifiedVotes true r) ∩ voters (s.verifiedVotes false r)

theorem card_voters (s : BinConsensusInstance) (b : Bool) (r : ℕ) :
    (voters (s.verifiedVotes b r)).card = if s.hasValue b r then (s.auxVotes b r).size else 0 := by
  unfold BinConsensusInstance.verifiedVotes
  split_ifs
  · exact (OrderedMap.size_eq_card _).symm
  · rfl

theorem verifiedValuesSize_eq (s : BinConsensusInstance) (r : ℕ) :
    s.verifiedValuesSize r =
      (voters (s.verifiedVotes true r)).card + (voters (s.verifiedVotes false r)).card := by
  rw [card_voters, card_voters]
  rfl

theorem getRequiredSigners_le_iff {c : Schain} {count : ℕ} (h : 0 < count) :
    getRequiredSigners c.nodeCount ≤ count ↔ isTwoThird c count = true := by
  unfold getRequiredSigners isTwoThird
  rw [decide_eq_true_eq]
  split_ifs <;> omega

theorem getRequiredSigners_le_voters_iff {c : Schain} {s : BinConsensusInstance} {r : ℕ}
    (hquorum : isTwoThird c (s.verifiedValuesSize r) = true) :
    getRequiredSigners c.nodeCount ≤
        (voters (s.verifiedVotes true r) ∪ voters (s.verifiedVotes false r)).card ↔
      isTwoThird c (s.verifiedValuesSize r - (s.countedTwice r).card) = true := by
  have hsize := verifiedValuesSize_eq s r
  have hunion :=
    Finset.card_union (voters (s.verifiedVotes true r)) (voters (s.verifiedVotes false r))
  have hsome : 0 < s.verifiedValuesSize r := by
    rcases Nat.eq_zero_or_pos (s.verifiedValuesSize r) with hzero | hpos
    · rw [hzero, isTwoThird_zero] at hquorum
      cases hquorum
    · exact hpos
  have hnonempty :
      0 < (voters (s.verifiedVotes true r) ∪ voters (s.verifiedVotes false r)).card := by
    have htrue : (voters (s.verifiedVotes true r)).card ≤
        (_ ∪ voters (s.verifiedVotes false r)).card :=
      Finset.card_le_card Finset.subset_union_left
    have hfalse : (voters (s.verifiedVotes false r)).card ≤
        (voters (s.verifiedVotes true r) ∪ _).card :=
      Finset.card_le_card Finset.subset_union_right
    omega
  rw [getRequiredSigners_le_iff hnonempty, hunion, hsize]
  rfl

/-- An instance has two thirds of AUX votes for the binary values of a round that has a common
coin. The shares collected for it are from enough nodes, and the check that they are passes,
exactly if the votes are two thirds with every node counted once. -/
theorem coin_available_iff (c : Schain) (hlaws : ShareSetLaws c) (hc : SignsAsItself c)
    (hsgx : c.sgxEnabled = true) (K : ProtocolKey) (envelopes : List MessageEnvelope)
    (hall : ∀ me ∈ envelopes, OwnShare me) (r : ℕ) (hr : COMMON_COIN_ROUND ≤ r)
    (hquorum : isTwoThird c
      ((envelopes.foldl (handle c) (.start K)).inst.verifiedValuesSize r) = true) :
    let s := (envelopes.foldl (handle c) (.start K)).inst
    ∃ shares, collectShares c s r = .ok shares ∧
      (getRequiredSigners c.nodeCount ≤ (signers shares).card ↔
        isTwoThird c (s.verifiedValuesSize r - (s.countedTwice r).card) = true) ∧
      (roundRandom c s r = .error "State check failed::shares->isEnough()" ↔
        ¬ isTwoThird c (s.verifiedValuesSize r - (s.countedTwice r).card) = true) := by
  intro s
  have hstart : VotesSigned (.start K) := fun b r _ e he => by cases b <;> cases he
  have hvotes := hstart.handleAll (.start K) hc hall
  have hsigned : ∀ b, Signed (s.verifiedVotes b r) := by
    intro b
    unfold BinConsensusInstance.verifiedVotes
    split_ifs
    · exact hvotes b r hr
    · exact fun e he => absurd he List.not_mem_nil
  obtain ⟨shares, hcollect, henough⟩ := collectShares_collected hlaws hsigned
  rw [getRequiredSigners_le_voters_iff hquorum] at henough
  refine ⟨shares, hcollect, ?_, ?_⟩
  · rw [← henough, hlaws.isEnough, decide_eq_true_eq]
  · have hrandom : roundRandom c s r = calculateBLSRandom c s r := by
      unfold roundRandom
      rw [hsgx, decide_eq_true hr]
      rfl
    rw [hrandom, calculateBLSRandom_eq, hcollect, ← henough]
    show (if c.isEnough shares = true then Except.ok (c.mergeSignatureGetRandom shares)
      else Except.error "State check failed::shares->isEnough()") = _ ↔ _
    split_ifs with hcomplete
    · simp [hcomplete]
    · simp [hcomplete]

/-! ### A node that votes twice -/

def coinNode : Schain where
  schainID := 1
  nodeCount := 4
  schainIndex := 1
  sgxEnabled := true
  blake3 := fun _ => []
  signBinaryConsensusSigShare := fun _ _ _ => ⟨1, ""⟩
  verifyThresholdSigShare := fun _ _ => true
  addSigShare := fun shares share =>
    if share.signerIndex ∈ signers shares then shares else shares ++ [share]
  isEnough := fun shares => decide (getRequiredSigners 4 ≤ (signers shares).card)
  mergeSignatureGetRandom := fun _ => 0

theorem shareSetLaws_coinNode : ShareSetLaws coinNode where
  addSigShare shares share := by
    simp only [coinNode]
    split_ifs with hmem
    · exact (Finset.insert_eq_of_mem hmem).symm
    · simp [signers, Finset.union_comm]
  isEnough _ := rfl

/-- Node `i` sends its vote for `firstKey`, with its share. -/
def ballot (i : SchainIndex) (msgType : MsgType) (r : ℕ) (b : Bool) : MessageEnvelope :=
  ⟨.network, ⟨msgType, firstKey.blockID, firstKey.blockProposerIndex, r, Value.ofBool b,
    some ⟨i, ""⟩⟩, i⟩

/-- The nodes 1, 2 and 3 vote for false, and the coin is true. -/
def unluckyRound (r : ℕ) : List MessageEnvelope :=
  [ballot 2 .bvBroadcast r false, ballot 3 .bvBroadcast r false, ballot 2 .auxBroadcast r false,
    ballot 3 .auxBroadcast r false]

/-- Four such rounds, and then both values are binary in the next. -/
def bothBinary : List MessageEnvelope :=
  proposalEnvelope 1 firstKey false ::
    ((List.range 4).flatMap unluckyRound ++
      [ballot 2 .bvBroadcast 4 false, ballot 3 .bvBroadcast 4 false, ballot 2 .bvBroadcast 4 true,
        ballot 3 .bvBroadcast 4 true, ballot 4 .bvBroadcast 4 true])

/-- Nodes 2 and 3 vote for false: the coin is there. -/
theorem coin_available_threeVoters :
    let s := ((bothBinary ++ [ballot 2 .auxBroadcast 4 false, ballot 3 .auxBroadcast 4 false]).foldl
      (handle coinNode) (.start firstKey)).inst
    ∃ shares, collectShares coinNode s 4 = .ok shares ∧
      getRequiredSigners coinNode.nodeCount ≤ (signers shares).card := by
  obtain ⟨shares, hshares, henough, -⟩ := coin_available_iff coinNode shareSetLaws_coinNode
    (fun _ _ _ => rfl) rfl firstKey
    (bothBinary ++ [ballot 2 .auxBroadcast 4 false, ballot 3 .auxBroadcast 4 false])
    (by unfold OwnShare; decide +kernel) 4 (by decide) (by decide +kernel)
  exact ⟨shares, hshares, henough.mpr (by decide +kernel)⟩

/-- Node 4 votes for both values: with the vote of node 1 these are three votes of four nodes,
but two shares, and the message that brings the third vote throws. -/
theorem double_voter_no_coin :
    let before := (bothBinary ++ [ballot 4 .auxBroadcast 4 true]).foldl (handle coinNode)
      (.start firstKey)
    let s := (handle coinNode before (ballot 4 .auxBroadcast 4 false)).inst
    isTwoThird coinNode (s.verifiedValuesSize 4) = true ∧
      (∃ shares, collectShares coinNode s 4 = .ok shares ∧
        (signers shares).card < getRequiredSigners coinNode.nodeCount) ∧
      ∃ after, (processMessage coinNode (ballot 4 .auxBroadcast 4 false)).run before =
        .error "State check failed::shares->isEnough()" after := by
  refine ⟨by decide +kernel, exists_ok (by decide +kernel), _, run_of_thrown? ?_⟩
  decide +kernel

end SkaleConsensus.BinConsensus
