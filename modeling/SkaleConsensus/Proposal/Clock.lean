import SkaleConsensus.Proposal.Poisoning

/-! Time stamps and the clock.

A proposal server compares the seconds of a proposal's time stamp with its clock and lets
them be one second ahead. The milliseconds are a field of their own, a `uint32_t` that is
not compared with anything, and are added to the seconds where a proposer waits for its
clock to pass the last block. Up to 1000 they keep the time stamp within two seconds of the
clock, and no further. -/
namespace SkaleConsensus.Proposal
open Library Block Crypto

/-- The readings of the clock, in milliseconds, with which the loop of `buildBlockProposal`
goes on waiting. -/
def waited (previousBlockTimeStamp : TimeStamp) (readings : List ℕ) : List ℕ :=
  readings.takeWhile fun now =>
    decide (now ≤ (previousBlockTimeStamp.s * 1000 + previousBlockTimeStamp.ms) % 2 ^ 64)

/-- A node is asked when its clock reads `time` milliseconds, and returns a DA signature
share for `p`. -/
def Shared (n : Node) (time : ℕ) (p : BlockProposal) : Prop :=
  ∃ s js h transactions mid t, (running n).Reachable s ∧
    blockProposalRequestHeader n js = .ok h ∧
    result? (openRequest n js (time / 1000)) s = some (.proceed, .ok) ∧
    (running n).runFrom (finalState (openRequest n js (time / 1000)) s) mid = some t ∧
    receivedBlockProposal n h transactions = .ok p ∧
    result? (finishRequest n h transactions) t = some (.success, .ok)

/-- The time stamp is at most two seconds ahead, and so is the end of the wait for it. -/
def WithinTwoSeconds (time : ℕ) (p : BlockProposal) : Prop :=
  1000 * p.timeStamp + p.timeStampMs ≤ time + 2000 ∧
    ∀ readings, ∀ now ∈ waited p.getTimeStamp readings, now ≤ time + 2000

variable {n : Node} {s : NodeState} {h : BlockProposalRequestHeader} {now time ms : ℕ}
  {p : BlockProposal}

theorem withinTwoSeconds_iff :
    WithinTwoSeconds time p ↔ 1000 * p.timeStamp + p.timeStampMs ≤ time + 2000 := by
  refine ⟨And.left, fun hbound => ⟨hbound, fun readings now hnow => ?_⟩⟩
  have hwaits := of_decide_eq_true (List.all_eq_true.mp List.all_takeWhile now hnow)
  have hle := hwaits.trans (Nat.mod_le _ _)
  have hstamp : p.getTimeStamp.s * 1000 + p.getTimeStamp.ms =
      p.timeStamp * 1000 + p.timeStampMs := rfl
  omega

theorem ite_some_eq_none {α : Type} {c : Prop} [Decidable c] {a : α} {y : Option α} :
    (if c then some a else y) = none ↔ ¬ c ∧ y = none := by
  split_ifs with hc
  · exact ⟨nofun, fun h => absurd hc h.1⟩
  · exact ⟨fun h => ⟨hc, h⟩, And.right⟩

/-- What is not refused is at most a second ahead, in seconds. -/
theorem timeStamp_le_of_refuseProposal (hopen : refuseProposal n s h now = none) :
    h.timeStamp ≤ now + 1 := by
  unfold refuseProposal at hopen
  obtain ⟨-, hopen⟩ := ite_some_eq_none.mp hopen
  split at hopen
  · cases hopen
  · obtain ⟨-, h₁⟩ := ite_some_eq_none.mp hopen
    obtain ⟨-, h₂⟩ := ite_some_eq_none.mp h₁
    obtain ⟨-, h₃⟩ := ite_some_eq_none.mp h₂
    obtain ⟨-, h₄⟩ := ite_some_eq_none.mp h₃
    split at h₄
    · cases h₄
    · obtain ⟨-, h₅⟩ := ite_some_eq_none.mp h₄
      obtain ⟨-, h₆⟩ := ite_some_eq_none.mp h₅
      obtain ⟨-, h₇⟩ := ite_some_eq_none.mp h₆
      obtain ⟨hahead, -⟩ := ite_some_eq_none.mp h₇
      exact Nat.le_of_not_lt hahead

/-- If the seconds are past the last block, the milliseconds are not looked at. -/
theorem refuseProposal_congr {h' : BlockProposalRequestHeader}
    (hseconds : s.lastCommittedBlockTimeStamp.s < h.timeStamp)
    (hsame : h' = {h with
      timeStampMs := h'.timeStampMs, hash := h'.hash, signature := h'.signature}) :
    refuseProposal n s h' now = refuseProposal n s h now := by
  have hlt : ∀ ms, s.lastCommittedBlockTimeStamp.lt ⟨h.timeStamp, ms⟩ = true :=
    fun ms => if_pos hseconds
  rw [hsame]
  unfold refuseProposal
  simp only [hlt]

theorem Shared.timeStamp_le (hshared : Shared n time p) : p.timeStamp ≤ time / 1000 + 1 := by
  obtain ⟨s, js, h, transactions, mid, t, -, hread, hproceed, -, hreceived, -⟩ := hshared
  have hstamp : p.timeStamp = h.timeStamp := by
    obtain ⟨nodeID, hmake⟩ := after_bind hreceived
    rw [BlockProposal.of_make_eq_ok hmake]
    rfl
  rcases openRequest_cases n js (time / 1000) s with ⟨-, hrefused⟩ | ⟨h', hread', hopen, -⟩
  · exact absurd hproceed hrefused
  · obtain rfl := Except.ok.inj (hread.symm.trans hread')
    rw [hstamp]
    exact timeStamp_le_of_refuseProposal hopen

/-! ### What a proposer sends is read -/

/-- The numbers are `uint64_t`, the milliseconds `uint32_t`. -/
structure BlockProposalRequestHeader.Fits (h : BlockProposalRequestHeader) : Prop where
  schainID : h.schainID < 2 ^ 64
  blockID : h.blockID < 2 ^ 64
  proposerIndex : h.proposerIndex < 2 ^ 64
  proposerNodeID : h.proposerNodeID < 2 ^ 64
  timeStamp : h.timeStamp < 2 ^ 64
  timeStampMs : h.timeStampMs < 2 ^ 32
  txCount : h.txCount < 2 ^ 64

theorem blockProposalRequestHeader_addFields (hfits : h.Fits)
    (hindex : h.proposerIndex ≤ n.cm.nodeCount ∧ 0 < h.proposerIndex) (hhash : h.hash ≠ [])
    (hsignature : h.signature ≠ [])
    (hroot : n.u256 (textBytes (toString h.stateRoot.toNat)) = some h.stateRoot)
    (hrootStr : textBytes (toString h.stateRoot.toNat) ≠ []) :
    blockProposalRequestHeader n h.addFields = .ok h := by
  unfold blockProposalRequestHeader
  refine bind_eq_ok.mpr ⟨_, Json.getUint64_of_find? rfl hfits.schainID, ?_⟩
  refine bind_eq_ok.mpr ⟨_, Json.getUint64_of_find? rfl hfits.blockID, ?_⟩
  refine bind_eq_ok.mpr ⟨_, Json.getUint64_of_find? rfl hfits.proposerIndex, ?_⟩
  refine checkArgument_bind_eq_ok.mpr ⟨decide_eq_true hindex.1, ?_⟩
  refine checkArgument_bind_eq_ok.mpr ⟨decide_eq_true hindex.2, ?_⟩
  refine bind_eq_ok.mpr ⟨_, Json.getUint64_of_find? rfl hfits.proposerNodeID, ?_⟩
  refine bind_eq_ok.mpr ⟨_, Json.getUint64_of_find? rfl hfits.timeStamp, ?_⟩
  refine bind_eq_ok.mpr ⟨_, Json.getUint32_of_find? rfl hfits.timeStampMs, ?_⟩
  refine bind_eq_ok.mpr ⟨h.hash, rfl, ?_⟩
  refine checkState_bind_eq_ok.mpr ⟨not_isEmpty hhash, ?_⟩
  refine bind_eq_ok.mpr ⟨h.signature, rfl, ?_⟩
  refine checkState_bind_eq_ok.mpr ⟨not_isEmpty hsignature, ?_⟩
  refine bind_eq_ok.mpr ⟨_, Json.getUint64_of_find? rfl hfits.txCount, ?_⟩
  refine bind_eq_ok.mpr ⟨textBytes (toString h.stateRoot.toNat), rfl, ?_⟩
  refine checkState_bind_eq_ok.mpr ⟨not_isEmpty hrootStr, ?_⟩
  rw [hroot]
  rfl

/-! ### A proposer that chooses its milliseconds -/

def besideByzantine : Node :=
  {Node.ofFour with
    cm := {fourSigners [] [] with
      verifyECDSA := fun key hash sig => key == letter 12 && sig == key ++ hash}}

/-- Node 2's proposal for block 1, a second ahead, without its signature. -/
def aheadFields (ms : ℕ) : ProposalFields := ⟨1, 12, 1, 2, [], 0, MODERN_TIME + 2, ms, []⟩

def aheadHash (ms : ℕ) : Hash := (aheadFields ms).hash toHex

def aheadRequest (ms : ℕ) : BlockProposalRequestHeader where
  schainID := 1
  blockID := 1
  proposerIndex := 2
  proposerNodeID := 12
  timeStamp := MODERN_TIME + 2
  timeStampMs := ms
  hash := toHex (aheadHash ms)
  signature := letter 12 ++ aheadHash ms
  txCount := 0
  stateRoot := 0

theorem hash_aheadRequest (ms : ℕ) : (aheadRequest ms).hash = toHex (aheadHash ms) := by
  simp only [aheadRequest]

theorem signature_aheadRequest (ms : ℕ) :
    (aheadRequest ms).signature = letter 12 ++ aheadHash ms := by
  simp only [aheadRequest]

def aheadProposal (ms : ℕ) (hms : ms < 2 ^ 32) : BlockProposal where
  toProposalFields := {aheadFields ms with signature := letter 12 ++ aheadHash ms}
  fits := by
    show 1 < 2 ^ 64 ∧ 12 < 2 ^ 64 ∧ 1 < 2 ^ 64 ∧ 2 < 2 ^ 64 ∧ 0 < 2 ^ 64 ∧
      MODERN_TIME + 2 < 2 ^ 64 ∧ ms < 2 ^ 32
    exact ⟨by decide, by decide, by decide, by decide, by decide, by decide, hms⟩
  rootless := fun _ => rfl
  modern := Nat.lt_add_of_pos_right (by decide)
  signed := List.append_ne_nil_of_left_ne_nil (List.cons_ne_nil _ _) _

theorem receivedBlockProposal_aheadRequest (hms : ms < 2 ^ 32) :
    receivedBlockProposal besideByzantine (aheadRequest ms) [] = .ok (aheadProposal ms hms) := by
  refine bind_eq_ok.mpr ⟨12, rfl, ?_⟩
  exact BlockProposal.make_eq_ok_iff.mpr rfl

theorem verifyECDSASig_ahead (hash : Hash) :
    besideByzantine.cm.verifyECDSASig hash (letter 12 ++ hash) 12 (MODERN_TIME + 2) = true := by
  have hkey : besideByzantine.cm.getECDSAPublicKeyForNodeId 12 (MODERN_TIME + 2) = letter 12 := rfl
  have hverify : besideByzantine.cm.verifyECDSA (letter 12) hash (letter 12 ++ hash) = true := by
    show (letter 12 == letter 12 && letter 12 ++ hash == letter 12 ++ hash) = true
    rw [beq_self_eq_true, beq_self_eq_true]
    rfl
  unfold CryptoManager.verifyECDSASig
  rw [hkey, hverify]
  rfl

theorem hash_aheadProposal (hms : ms < 2 ^ 32) :
    (aheadProposal ms hms).hash toHex = aheadHash ms := by
  unfold aheadHash ProposalFields.hash ProposalFields.hashInput
  rfl

theorem toHex_ne_nil {bytes : Bytes} (h : bytes ≠ []) : toHex bytes ≠ [] :=
  fun hempty => h (toHex_injective (b := []) hempty)

theorem aheadHash_ne_nil (ms : ℕ) : aheadHash ms ≠ [] := by
  refine toHex_ne_nil fun hempty => ?_
  unfold ProposalFields.hashInput at hempty
  simp [leBytes] at hempty

theorem verifyProposalECDSA_aheadProposal (hms : ms < 2 ^ 32) :
    (aheadProposal ms hms).verifyProposalECDSA besideByzantine.cm (toHex (aheadHash ms))
      (letter 12 ++ aheadHash ms) = .ok () := by
  have hhash : (aheadProposal ms hms).hash besideByzantine.cm.blake3 = aheadHash ms :=
    hash_aheadProposal hms
  refine BlockProposal.verifyProposalECDSA_eq_ok ?_ (congrArg toHex hhash) ?_
    (aheadProposal ms hms).signed ?_
  · exact Nat.succ_ne_zero 1
  · exact toHex_ne_nil (aheadHash_ne_nil ms)
  · rw [hhash]
    exact verifyECDSASig_ahead (aheadHash ms)

theorem blockProposalRequestHeader_aheadRequest (hms : ms < 2 ^ 32) :
    blockProposalRequestHeader besideByzantine (aheadRequest ms).addFields =
      .ok (aheadRequest ms) := by
  have hfits : (aheadRequest ms).Fits :=
    ⟨(by decide : 1 < 2 ^ 64), (by decide : 1 < 2 ^ 64), (by decide : 2 < 2 ^ 64),
      (by decide : 12 < 2 ^ 64), (by decide : MODERN_TIME + 2 < 2 ^ 64), hms,
      (by decide : 0 < 2 ^ 64)⟩
  have hindex : (aheadRequest ms).proposerIndex ≤ besideByzantine.cm.nodeCount ∧
      0 < (aheadRequest ms).proposerIndex := ⟨(by decide : 2 ≤ 4), (by decide : 0 < 2)⟩
  have hstateRoot : (aheadRequest ms).stateRoot = 0 := rfl
  refine blockProposalRequestHeader_addFields hfits hindex ?_ ?_ ?_ ?_
  · rw [hash_aheadRequest]
    exact toHex_ne_nil (aheadHash_ne_nil ms)
  · rw [signature_aheadRequest]
    exact (aheadProposal ms hms).signed
  · rw [hstateRoot]
    decide +kernel
  · rw [hstateRoot]
    decide +kernel

/-- Whatever its milliseconds, the proposal is signed for when the clock is at the full
second. -/
theorem shared_aheadProposal (hms : ms < 2 ^ 32) :
    Shared besideByzantine (1000 * (MODERN_TIME + 1)) (aheadProposal ms hms) := by
  obtain ⟨s, hrun, hopen, hfresh, hstamp⟩ :
      ∃ s, (running besideByzantine).run [.build (firstDraft 1), .store] = some s ∧
        refuseProposal besideByzantine s (aheadRequest 0) (MODERN_TIME + 1) = none ∧
        s.proposalHashDB ⟨1, 2⟩ = none ∧ s.lastCommittedBlockTimeStamp = ⟨0, 0⟩ :=
    Machine.exists_run (by decide +kernel)
  have hread := blockProposalRequestHeader_aheadRequest hms
  have hopen' : refuseProposal besideByzantine s (aheadRequest ms) (MODERN_TIME + 1) = none := by
    rw [← hopen]
    refine refuseProposal_congr ?_ (by simp only [aheadRequest])
    rw [hstamp]
    exact (by decide : 0 < MODERN_TIME + 2)
  have hhash : (aheadRequest ms).hash.isEmpty = false := by
    rw [hash_aheadRequest]
    exact List.isEmpty_eq_false_iff.mpr (toHex_ne_nil (aheadHash_ne_nil ms))
  have hkey : s.proposalHashDB (aheadRequest ms).key = none := hfresh
  have hproceed : result? (openRequest besideByzantine (aheadRequest ms).addFields
      (1000 * (MODERN_TIME + 1) / 1000)) s = some (.proceed, .ok) := by
    rw [Nat.mul_div_cancel_left _ (by decide)]
    unfold result?
    rw [openRequest_run hread, hopen', hkey]
    simp only [hhash]
    rfl
  refine ⟨s, _, aheadRequest ms, [], [], _, ⟨_, hrun⟩, hread, hproceed, rfl,
    receivedBlockProposal_aheadRequest hms, ?_⟩
  refine result?_finishRequest ⟨(by decide : 2 ≤ 4), (by decide : 0 < 2)⟩
    (by decide : 0 < MODERN_TIME + 2) (receivedBlockProposal_aheadRequest hms) ?_ _
  rw [hash_aheadRequest, signature_aheadRequest]
  exact verifyProposalECDSA_aheadProposal hms

/-- All proposals with these milliseconds that a node signs for are at most two seconds
ahead, and are not waited for any longer, exactly if the milliseconds are at most 1000. -/
theorem withinTwoSeconds_iff_ms_le {ms : ℕ} (hms : ms < 2 ^ 32) :
    (∀ n time p, Shared n time p → p.timeStampMs = ms → WithinTwoSeconds time p) ↔ ms ≤ 1000 := by
  constructor
  · intro hall
    have hbound := (hall _ _ _ (shared_aheadProposal hms) rfl).1
    have hfields : 1000 * (MODERN_TIME + 2) + ms ≤ 1000 * (MODERN_TIME + 1) + 2000 := hbound
    omega
  · rintro hle n time p hshared rfl
    have hseconds := hshared.timeStamp_le
    rw [withinTwoSeconds_iff]
    omega

theorem withinTwoSeconds_iff_ms_le_999 :
    ((∀ n time p, Shared n time p → p.timeStampMs = 999 → WithinTwoSeconds time p) ↔ 999 ≤ 1000) ∧
      Shared besideByzantine (1000 * (MODERN_TIME + 1)) (aheadProposal 999 (by decide)) :=
  ⟨withinTwoSeconds_iff_ms_le (by decide), shared_aheadProposal (by decide)⟩

/-- With the largest milliseconds a proposer waits for seven weeks. -/
theorem waits_for_weeks :
    Shared besideByzantine (1000 * (MODERN_TIME + 1)) (aheadProposal (2 ^ 32 - 1) (by decide)) ∧
      ¬ WithinTwoSeconds (1000 * (MODERN_TIME + 1)) (aheadProposal (2 ^ 32 - 1) (by decide)) ∧
      1000 * (MODERN_TIME + 1) + 4294968 * 1000 ∈
        waited (aheadProposal (2 ^ 32 - 1) (by decide)).getTimeStamp
          [1000 * (MODERN_TIME + 1) + 4294968 * 1000] := by
  refine ⟨shared_aheadProposal (by decide), ?_, by decide +kernel⟩
  rw [withinTwoSeconds_iff]
  decide +kernel

end SkaleConsensus.Proposal
