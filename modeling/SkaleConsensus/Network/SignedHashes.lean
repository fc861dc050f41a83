import SkaleConsensus.Block.Binding
import SkaleConsensus.Crypto.DAProof
import SkaleConsensus.Network.RoundTrip

/-! What the signatures of a node are for.

A node signs four kinds of hashes. Its BLS key signs the coins of the binary
consensuses and the decided blocks; its session keys sign the messages it sends
and, in a DA share, the proposals it has stored. Neither key is told what it
signs, so the texts that are hashed have to keep the kinds apart.

The BLS texts differ in length. The session texts begin alike, with 56 bytes of
numbers: 57 bytes in, a message has the length of its type, and a proposal has a
digit of its state root. -/
namespace SkaleConsensus.Network
open Library Crypto Block NetworkMessage

/-! ### The BLS key -/

/-- The coin that a vote has a share of. -/
def NetworkMessage.coin (m : NetworkMessage) : ℕ × ℕ × ℕ × ℕ :=
  (m.blockProposerIndex, m.r, m.blockID, m.schainID)

/-- The block that a signature share is for. -/
def NetworkMessage.decision (m : NetworkMessage) : ℕ × ℕ × ℕ :=
  (m.blockProposerIndex, m.blockID, m.schainID)

theorem length_commonCoinInput (m : NetworkMessage) : m.commonCoinInput.length = 36 := by
  simp only [commonCoinInput, commonCoinHashInput, List.length_append, length_leBytes]

theorem length_consensusInput (m : NetworkMessage) : m.consensusInput.length = 28 := by
  simp only [consensusInput, consensusHashInput, List.length_append, length_leBytes]

theorem commonCoinInput_ne_consensusInput (a b : NetworkMessage) :
    a.commonCoinInput ≠ b.consensusInput := by
  intro h
  have hlength := congrArg List.length h
  rw [length_commonCoinInput, length_consensusInput] at hlength
  cases hlength

theorem coin_eq_of_commonCoinInput {a b : NetworkMessage} (ha : a.Fits) (hb : b.Fits)
    (h : a.commonCoinInput = b.commonCoinInput) : a.coin = b.coin := by
  simp only [commonCoinInput, commonCoinHashInput, List.append_assoc] at h
  obtain ⟨hproposer, h⟩ := eq_of_leBytes_append ha.blockProposerIndex hb.blockProposerIndex h
  obtain ⟨hround, h⟩ := eq_of_leBytes_append ha.r hb.r h
  obtain ⟨hblock, h⟩ := eq_of_leBytes_append ha.blockID hb.blockID h
  obtain ⟨hschain, -⟩ := eq_of_leBytes_append ha.schainID hb.schainID h
  simp only [NetworkMessage.coin, hproposer, hround, hblock, hschain]

theorem decision_eq_of_consensusInput {a b : NetworkMessage} (ha : a.Fits) (hb : b.Fits)
    (h : a.consensusInput = b.consensusInput) : a.decision = b.decision := by
  simp only [consensusInput, consensusHashInput, List.append_assoc] at h
  obtain ⟨hproposer, h⟩ := eq_of_leBytes_append ha.blockProposerIndex hb.blockProposerIndex h
  obtain ⟨hblock, h⟩ := eq_of_leBytes_append ha.blockID hb.blockID h
  obtain ⟨hschain, -⟩ := eq_of_leBytes_append ha.schainID hb.schainID h
  simp only [NetworkMessage.decision, hproposer, hblock, hschain]

/-! ### The session keys -/

/-- The second digit of a number in hexadecimal. -/
theorem getElem?_one_toHex {bytes : Bytes} (h : bytes ≠ []) :
    ∃ b ∈ bytes, (toHex bytes)[1]? = some (toHex.hexDigit (b % 16)) := by
  cases bytes with
  | nil => exact absurd rfl h
  | cons b rest => exact ⟨b, List.mem_cons_self, rfl⟩

theorem hexDigit_ne_one (b : UInt8) : toHex.hexDigit (b % 16) ≠ 1 := by
  obtain ⟨x⟩ := b
  revert x
  decide +kernel

theorem u256ToBigEndianArray_ne_nil (value : BitVec 256) : u256ToBigEndianArray value ≠ [] := by
  unfold u256ToBigEndianArray
  split
  · exact List.cons_ne_nil 0 []
  · assumption

/-- Seven numbers precede what tells a message from a proposal. -/
theorem getElem?_fiftySeven {l₁ l₂ : Bytes} (h : l₁.length = 56) : (l₁ ++ l₂)[57]? = l₂[1]? := by
  rw [List.getElem?_append_right (by omega), h]

theorem getElem?_hashInput_message (m : NetworkMessage) : m.hashInput[57]? = some 1 := by
  have hsplit : m.hashInput =
      (leBytes 8 m.schainID ++ leBytes 8 m.blockID ++ leBytes 8 m.blockProposerIndex ++
        leBytes 8 m.msgID ++ leBytes 8 m.srcNodeID ++ leBytes 8 m.srcSchainIndex ++
        leBytes 8 m.r) ++
      (m.value :: (lengthPrefixed (textBytes m.msgType.typeString) ++
        lengthPrefixed m.sigShareString ++ m.child.flatMap lengthPrefixed)) := by
    simp only [hashInput, List.append_assoc, List.cons_append,
      List.nil_append]
  rw [hsplit, getElem?_fiftySeven (by simp only [List.length_append, length_leBytes])]
  -- every type has one letter
  cases m.msgType <;> rfl

theorem getElem?_hashInput_proposal (blake3 : Bytes → Hash) (a : ProposalFields) :
    ∃ b : UInt8, (a.hashInput blake3)[57]? = some (toHex.hexDigit (b % 16)) := by
  have hroot := u256ToBigEndianArray_ne_nil a.stateRoot
  obtain ⟨b, -, hdigit⟩ := getElem?_one_toHex hroot
  have hlength : 1 < (toHex (u256ToBigEndianArray a.stateRoot)).length := by
    have := List.length_pos_iff.mpr hroot
    rw [length_toHex]
    omega
  unfold ProposalFields.hashInput
  rw [List.append_assoc, getElem?_fiftySeven (by simp only [List.length_append, length_leBytes]),
    List.getElem?_append_left hlength]
  exact ⟨b, hdigit⟩

theorem hashInput_proposal_ne_message (blake3 : Bytes → Hash) (a : ProposalFields)
    (m : NetworkMessage) : a.hashInput blake3 ≠ m.hashInput := by
  intro h
  obtain ⟨b, hdigit⟩ := getElem?_hashInput_proposal blake3 a
  rw [h, getElem?_hashInput_message] at hdigit
  exact hexDigit_ne_one b (Option.some.inj hdigit).symm

/-! ### Signatures -/

/-- A signature is good for one hash. -/
def Binding {κ : Type} (verify : κ → Hash → Bool) : Prop :=
  ∀ sig hash hash', verify sig hash = true → verify sig hash' = true → hash = hash'

/-- A session key and a signature, as a node verifies them. -/
def verifySession (cm : CryptoManager) (sig : Bytes × Bytes) (hash : Hash) : Bool :=
  cm.verifySessionEdDSASig hash sig.2 sig.1

theorem verifySession_of_run {cm : CryptoManager} {a : SessionCall} {c c' : SessionCache}
    (h : (verifySessionSigAndKey cm a).run c = .ok () c') :
    verifySession cm (a.publicKey, a.sig) a.hash = true := by
  unfold verifySessionSigAndKey at h
  obtain ⟨⟨⟩, _, -, h⟩ := run_bind_eq_ok.mp h
  obtain ⟨⟨⟩, _, -, h⟩ := run_bind_eq_ok.mp h
  by_contra hverify
  unfold verifySession at hverify
  rw [if_neg hverify] at h
  cases h

/-- The hash of a call that verifies a share of a DA proof is the proof's. -/
theorem hash_of_shareCall {cm : CryptoManager} {d : DACall}
    {entry : SchainIndex × ConsensusEdDSASigShare} {a : SessionCall}
    (h : shareCall cm d entry = .ok a) : a.hash = d.hash := by
  unfold shareCall at h
  obtain ⟨nodeId, h⟩ := after_bind h
  cases h
  rfl

section Separation
variable (s : Sender) (n : Receiver) {texts : Set Bytes}

theorem commonCoinHash_ne_consensusHash (hs : Set.InjOn s.cm.blake3 texts) {a b : NetworkMessage}
    (ha : a.commonCoinInput ∈ texts) (hb : b.consensusInput ∈ texts) :
    s.getCommonCoinHash a ≠ s.getConsensusHash b :=
  fun h => commonCoinInput_ne_consensusInput a b (hs ha hb h)

theorem proposalHash_ne_messageHash (hn : Set.InjOn n.cm.blake3 texts) {p : BlockProposal}
    {m : NetworkMessage} (hp : p.hashInput n.cm.blake3 ∈ texts) (hm : m.hashInput ∈ texts) :
    p.hash n.cm.blake3 ≠ m.calculateHash n.cm :=
  fun h => hashInput_proposal_ne_message _ p.toProposalFields m (hn hp hm h)

/-- If BLAKE3 has no collision among the texts that are hashed, then the BLS key signs a coin
or a decided block and never both, and every coin and every block has its own hash; and a
session key signs a proposal or a message and never both. A signature of one kind is not
accepted as one of the other kind. -/
theorem signed_hashes_separate (hs : Set.InjOn s.cm.blake3 texts)
    (hn : Set.InjOn n.cm.blake3 texts) :
    (∀ a b : NetworkMessage, a.commonCoinInput ∈ texts → b.consensusInput ∈ texts →
      s.getCommonCoinHash a ≠ s.getConsensusHash b ∧
      ∀ (κ : Type) (verify : κ → Hash → Bool), Binding verify → ∀ sig,
        ¬ (verify sig (s.getCommonCoinHash a) = true ∧
          verify sig (s.getConsensusHash b) = true)) ∧
    (∀ a b : NetworkMessage, a.Fits → b.Fits → a.commonCoinInput ∈ texts →
      b.commonCoinInput ∈ texts → s.getCommonCoinHash a = s.getCommonCoinHash b →
      a.coin = b.coin) ∧
    (∀ a b : NetworkMessage, a.Fits → b.Fits → a.consensusInput ∈ texts →
      b.consensusInput ∈ texts → s.getConsensusHash a = s.getConsensusHash b →
      a.decision = b.decision) ∧
    ∀ timeStamp bytes c e c', (receiveMessage n timeStamp bytes).run c = .ok e c' →
      ∀ p : BlockProposal, p.hashInput n.cm.blake3 ∈ texts → e.message.hashInput ∈ texts →
        p.hash n.cm.blake3 ≠ e.message.calculateHash n.cm ∧
        (Binding (verifySession n.cm) → ∀ d entry a c₁ c₂, d.hash = p.hash n.cm.blake3 →
          shareCall n.cm d entry = .ok a → (verifySessionSigAndKey n.cm a).run c₁ = .ok () c₂ →
          (a.publicKey, a.sig) ≠ (e.message.publicKey, e.message.ecdsaSig)) := by
  refine ⟨fun a b ha hb => ?_, fun a b ha hb hainput hbinput h => ?_,
    fun a b ha hb hainput hbinput h => ?_, fun timeStamp bytes c e c' hreceive p hp he => ?_⟩
  · have hne := commonCoinHash_ne_consensusHash s hs ha hb
    exact ⟨hne, fun κ verify hbinding sig h => hne (hbinding sig _ _ h.1 h.2)⟩
  · exact coin_eq_of_commonCoinInput ha hb (hs hainput hbinput h)
  · exact decision_eq_of_consensusInput ha hb (hs hainput hbinput h)
  · have hne := proposalHash_ne_messageHash n hn hp he
    refine ⟨hne, fun hbinding d entry a c₁ c₂ hd hcall hshare heq => hne ?_⟩
    obtain ⟨-, hmessage, -⟩ := receiveMessage_run_eq_ok hreceive
    have hproposal := verifySession_of_run hshare
    rw [hash_of_shareCall hcall, hd, heq] at hproposal
    exact hbinding _ _ _ hproposal (verifySession_of_run hmessage)

end Separation

/-- A node whose digests are the texts in hexadecimal. -/
def plainSender : Sender := {mockupSender with cm := voteReceiver.cm}

theorem binding_verifySession : Binding (verifySession voteReceiver.cm) := by
  intro sig hash hash' h h'
  have hof : ∀ x, verifySession voteReceiver.cm sig x = true → sig.2 = sig.1 ++ x := by
    intro x hx
    obtain ⟨-, hx⟩ := (Bool.and_eq_true _ _).mp hx
    exact eq_of_beq ((Bool.and_eq_true _ _).mp hx).2
  exact List.append_cancel_left ((hof hash h).symm.trans (hof hash' h'))

/-- The vote of node 12 and the proposal of another node. -/
theorem signed_hashes_separate_vote :
    plainSender.getCommonCoinHash (voteAs 2) ≠ plainSender.getConsensusHash (voteAs 2) ∧
      ∃ c, (receiveMessage voteReceiver currentTimeStamp (writeObject (voteAs 2).members)).run
          .empty = .ok ⟨voteAs 2, 2⟩ c ∧
        Binding (verifySession voteReceiver.cm) ∧
        signedOnce.hash toHex ≠ (voteAs 2).calculateHash voteReceiver.cm := by
  have hinj : Set.InjOn toHex Set.univ := fun _ _ _ _ h => toHex_injective h
  obtain ⟨hcoin, -, -, hsession⟩ := signed_hashes_separate plainSender voteReceiver hinj hinj
  have hreceive := run_of_result? (s := .empty) (x := receiveMessage voteReceiver
    currentTimeStamp (writeObject (voteAs 2).members)) (a := ⟨voteAs 2, 2⟩) (by decide +kernel)
  exact ⟨(hcoin _ _ trivial trivial).1, _, hreceive, binding_verifySession,
    (hsession _ _ _ _ _ hreceive signedOnce trivial trivial).1⟩

end SkaleConsensus.Network
