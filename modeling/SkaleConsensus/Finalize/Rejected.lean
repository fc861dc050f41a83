import SkaleConsensus.Finalize.Commit
import SkaleConsensus.Finalize.Fragments

/-! Responses that the downloader does not accept.

A response is compared with the hash, the size and the DA signature of those before it. The
hash is kept before the DA signature is verified and before the data are read, and the DA
signature before the data are read, so a response that fails can leave something behind.
`sameExpectations_iff_of_rejected` says which do. -/
namespace SkaleConsensus.Finalize
open Library Block Crypto Proposal BlockProposalFragmentList

/-! ### What `addFragment` leaves behind

`addFragment` is a function to a new list; the source changes the list it has, and checks it
between the changes. The checks that come after a change hold for every list that was made
by adding fragments, so a call that throws has changed nothing. -/

namespace BlockProposalFragmentList

/-- `checkSanity`. -/
def checkSanity (l : BlockProposalFragmentList) : EStateM String BlockProposalFragmentList Unit :=
  checkState (decide (l.fragments.size ≤ l.totalFragments)) "fragments.size() <= totalFragments"

/-- `isComplete` with its checks. -/
def checkComplete (l : BlockProposalFragmentList) :
    EStateM String BlockProposalFragmentList Bool := do
  l.checkSanity
  if l.isComplete then
    checkState ((List.range' 1 l.totalFragments).all l.fragments.contains)
      "fragments.find( i ) != fragments.end()"
    checkState l.missingFragments.isEmpty "missingFragments.size() == 0"
    return true
  return false

/-- `addFragment` from the change of hash and size on. -/
def insertInPlace (f : BlockProposalFragment) (random : ℕ) :
    EStateM String BlockProposalFragmentList ℕ := do
  let l ← get
  l.checkSanity
  if l.fragments.contains f.fragmentIndex then return 0
  set {l with fragments := l.fragments.emplace f.fragmentIndex f.data}
  checkState (l.missingFragments.contains f.fragmentIndex) "findIter != missingFragments.end()"
  let l' := {l with
    fragments := l.fragments.emplace f.fragmentIndex f.data
    missingFragments := l.missingFragments.erase f.fragmentIndex}
  set l'
  if ← l'.checkComplete then return 0
  checkState (!l'.missingFragments.isEmpty) "missingFragments.size() > 0"
  checkState (decide (0 < l'.nextIndexToRetrieve random)) "nextIndex > 0"
  return l'.nextIndexToRetrieve random

/-- `addFragment` as the source runs it: what was written before a throw stays. -/
def addFragmentInPlace (f : BlockProposalFragment) (random : ℕ) :
    EStateM String BlockProposalFragmentList ℕ := do
  let l ← get
  checkArgument (f.blockId == l.blockID) "_fragment->getBlockId() == blockID"
  checkArgument (decide (0 < f.fragmentIndex)) "_fragment->getIndex() > 0"
  checkArgument (decide (f.fragmentIndex ≤ l.totalFragments))
    "_fragment->getIndex() <= totalFragments"
  if l.blockHash.isEmpty then
    set (stamp l f)
  else
    checkArgument (l.blockHash == f.blockHash) "blockHash.compare( _fragment->getBlockHash() ) == 0"
    checkArgument (l.blockSize == f.blockSize) "blockSize == ( int64_t ) _fragment->getBlockSize()"
  insertInPlace f random

variable {l l' : BlockProposalFragmentList} {f : BlockProposalFragment} {random next : ℕ}

theorem insertInPlace_run (hl : l.Partitioned) (hindex : 0 < f.fragmentIndex)
    (htotal : f.fragmentIndex ≤ l.totalFragments) :
    (insertInPlace f random).run (stamp l f) =
      if l.fragments.contains f.fragmentIndex then .ok 0 (stamp l f)
      else if (fill l f).isComplete then .ok 0 (fill l f)
      else .ok ((fill l f).nextIndexToRetrieve random) (fill l f) := by
  have hsane : decide ((stamp l f).fragments.size ≤ (stamp l f).totalFragments) = true := by
    have hcounted : l.fragments.size + l.missingFragments.length = l.totalFragments := hl.counted
    exact decide_eq_true (show l.fragments.size ≤ l.totalFragments by omega)
  unfold insertInPlace
  rw [run_get_bind, checkSanity, run_checkState_bind_of_true hsane]
  cases hhere : l.fragments.contains f.fragmentIndex with
  | true =>
    rw [if_pos (show (stamp l f).fragments.contains f.fragmentIndex = true from hhere)]
    rfl
  | false =>
    obtain ⟨hmissing, hfilled, hcomplete, hincomplete⟩ := hl.checks hindex htotal hhere random
    rw [if_neg (show ¬(stamp l f).fragments.contains f.fragmentIndex = true from
      Bool.eq_false_iff.mp hhere)]
    refine (run_checkState_bind_of_true hmissing _ _ _).trans ?_
    show ((fill l f).checkComplete >>= fun complete =>
      if complete = true then pure 0
      else do
        checkState (!(fill l f).missingFragments.isEmpty) "missingFragments.size() > 0"
        checkState (decide (0 < (fill l f).nextIndexToRetrieve random)) "nextIndex > 0"
        pure ((fill l f).nextIndexToRetrieve random)).run (fill l f) = _
    unfold checkComplete checkSanity
    cases hdone : (fill l f).isComplete with
    | true =>
      obtain ⟨hall, hnone⟩ := hcomplete hdone
      rw [hfilled, hall, hnone]
      rfl
    | false =>
      obtain ⟨hsome, hpos⟩ := hincomplete hdone
      rw [hfilled, hsome, hpos]
      rfl

/-- For a list that was made by adding fragments, `addFragment` is what the source does. -/
theorem addFragmentInPlace_run (hl : l.Partitioned) :
    (addFragmentInPlace f random).run l =
      match l.addFragment f random with
      | .ok (next, l') => .ok next l'
      | .error e => .error e l := by
  have hinsert : decide (0 < f.fragmentIndex) = true →
      decide (f.fragmentIndex ≤ l.totalFragments) = true →
      (insertInPlace f random).run (stamp l f) =
        match (if l.fragments.contains f.fragmentIndex = true then pure (0, stamp l f)
          else do
            checkState (l.missingFragments.contains f.fragmentIndex)
              "findIter != missingFragments.end()"
            if (fill l f).isComplete = true then pure (0, fill l f)
            else do
              checkState (!(fill l f).missingFragments.isEmpty) "missingFragments.size() > 0"
              checkState (decide (0 < (fill l f).nextIndexToRetrieve random)) "nextIndex > 0"
              pure ((fill l f).nextIndexToRetrieve random, fill l f) :
            Except String (ℕ × BlockProposalFragmentList)) with
        | .ok (next, l') => .ok next l'
        | .error e => .error e l := by
    intro hpos htotal
    rw [insertInPlace_run hl (of_decide_eq_true hpos) (of_decide_eq_true htotal)]
    cases hhere : l.fragments.contains f.fragmentIndex with
    | true => rfl
    | false =>
      obtain ⟨hmissing, -, -, hincomplete⟩ :=
        hl.checks (of_decide_eq_true hpos) (of_decide_eq_true htotal) hhere random
      rw [hmissing]
      cases hdone : (fill l f).isComplete with
      | true => rfl
      | false =>
        obtain ⟨hsome, hnext⟩ := hincomplete hdone
        rw [hsome, hnext]
        rfl
  unfold addFragmentInPlace addFragment
  rw [run_get_bind]
  cases hid : f.blockId == l.blockID with
  | false => rfl
  | true =>
    cases hpos : decide (0 < f.fragmentIndex) with
    | false => rfl
    | true =>
      cases htotal : decide (f.fragmentIndex ≤ l.totalFragments) with
      | false => rfl
      | true =>
        cases hempty : l.blockHash.isEmpty with
        | true => exact hinsert hpos htotal
        | false =>
          cases hhash : l.blockHash == f.blockHash with
          | false => rfl
          | true =>
            cases hsize : l.blockSize == f.blockSize with
            | false => rfl
            | true =>
              have hsame : stamp l f = l := by
                unfold stamp
                rw [← eq_of_beq hhash, ← eq_of_beq hsize]
              exact (congrArg (insertInPlace f random).run hsame.symm).trans (hinsert hpos htotal)

end BlockProposalFragmentList

/-! ### What a response that is rejected leaves behind -/

section Rejected
variable (n : Node) (blockId : ℕ)

/-- What the next responses are compared with. -/
structure SameExpectations (d d' : Download) : Prop where
  blockHash : d'.blockHash = d.blockHash
  listHash : d'.fragmentList.blockHash = d.fragmentList.blockHash
  blockSize : d'.fragmentList.blockSize = d.fragmentList.blockSize
  daSig : d'.daSig = d.daSig
  missingFragments : d'.fragmentList.missingFragments = d.fragmentList.missingFragments

/-- The response brings the first DA signature that verifies for the hash. -/
def BringsDaSig (h sig : Bytes) (s : Reading) : Prop :=
  h = s.download.blockHash ∧ (s.download.daSig.isNone && !sig.isEmpty) = true ∧
    (verifiedHash n blockId h sig s.sessionPublicKeys).isSome = true

/-- If the header of the response can be read, a hash is known already and the response
does not bring the first DA signature. -/
def Settled (lastTimeStampS : ℕ) (js : Json) (s : Reading) : Prop :=
  ∀ fragmentSize blockSize h sig, js.getUint64 "status" = .ok 1 →
    readResponse n lastTimeStampS js = .ok (fragmentSize, blockSize, h, sig) →
    s.download.blockHash ≠ [] ∧ ¬ BringsDaSig n blockId h sig s

variable {n blockId} {s t : Reading} {h sig : Bytes} {lastTimeStampS fragmentIndex random : ℕ}
  {e : String} {js : Json}

/-- Once a hash is known, only the first DA signature is kept. -/
theorem settled_readHashAndSig (hknown : s.download.blockHash ≠ []) :
    (finalState (readHashAndSig n blockId h sig) s).download.blockHash = s.download.blockHash ∧
      ((finalState (readHashAndSig n blockId h sig) s).download.daSig = s.download.daSig ↔
        ¬ BringsDaSig n blockId h sig s) := by
  have hempty : s.download.blockHash.isEmpty = false := List.isEmpty_eq_false_iff.mpr hknown
  rw [download_readHashAndSig, hempty, Bool.false_or]
  unfold daSigAfter BringsDaSig
  by_cases hsame : h = s.download.blockHash
  · rw [beq_iff_eq.mpr hsame, if_pos rfl]
    refine ⟨hsame, ?_⟩
    dsimp only
    split_ifs with hwanted
    · have hnone := Option.isNone_iff_eq_none.mp (Bool.and_eq_true_iff.mp hwanted).1
      rw [hnone] at hwanted ⊢
      rw [Option.map_eq_none_iff, ← Option.not_isSome_iff_eq_none]
      simp only [hsame, hwanted, true_and]
    · exact iff_of_true rfl fun hbrings => hwanted hbrings.2.1
  · rw [beq_eq_false_iff_ne.mpr hsame, if_neg Bool.false_ne_true]
    exact ⟨rfl, iff_of_true rfl fun hbrings => hsame hbrings.1⟩

theorem ne_nil_of_readResponse {fragmentSize blockSize : ℕ}
    (hread : readResponse n lastTimeStampS js = .ok (fragmentSize, blockSize, h, sig)) :
    h ≠ [] := by
  obtain ⟨size, h₁⟩ := after_bind hread
  by_cases hsize : size = 0
  · rw [if_pos hsize] at h₁
    cases h₁
  rw [if_neg hsize] at h₁
  obtain ⟨whole, h₂⟩ := after_bind h₁
  by_cases hwhole : whole = 0
  · rw [if_pos hwhole] at h₂
    cases h₂
  rw [if_neg hwhole] at h₂
  obtain ⟨text, h₃⟩ := after_bind h₂
  obtain ⟨⟨⟩, hchecked, h₄⟩ := bind_eq_ok.mp h₃
  have hsame : text = h := by
    dsimp only at h₄
    split_ifs at h₄ <;>
    · obtain ⟨signature, h₅⟩ := after_bind h₄
      cases h₅
      rfl
  rintro rfl
  rw [hsame] at hchecked
  cases hchecked

theorem eq_of_addData_error {blockSize : ℕ} {data : Bytes}
    (hrun : (addData n blockId fragmentIndex blockSize data random).run s = .error e t) :
    t = s := by
  unfold addData EStateM.run at hrun
  dsimp only at hrun
  split at hrun
  · cases hrun
    rfl
  · split at hrun
    · cases hrun
      rfl
    · cases hrun

/-- A response that fails, whatever the reason, leaves what `readHashAndSig` has left. -/
theorem download_of_rejected {data : Option Bytes}
    (hrun : (downloadFragment n blockId lastTimeStampS fragmentIndex js data random).run s =
      .error e t) :
    t.download = s.download ∧ (∀ fragmentSize blockSize h sig, js.getUint64 "status" = .ok 1 →
        readResponse n lastTimeStampS js ≠ .ok (fragmentSize, blockSize, h, sig)) ∨
      ∃ fragmentSize blockSize h sig, js.getUint64 "status" = .ok 1 ∧
        readResponse n lastTimeStampS js = .ok (fragmentSize, blockSize, h, sig) ∧
        t.download = (finalState (readHashAndSig n blockId h sig) s).download := by
  unfold downloadFragment at hrun
  cases hstatus : js.getUint64 "status" with
  | error e' =>
    rw [hstatus] at hrun
    cases hrun
    exact .inl ⟨rfl, nofun⟩
  | ok status =>
    rw [hstatus] at hrun
    dsimp only at hrun
    split_ifs at hrun with hnothing hproceed
    · cases hrun
    · cases hrun
      exact .inl ⟨rfl, fun _ _ _ _ hone => absurd (Except.ok.inj hone) hproceed⟩
    · cases hread : readResponse n lastTimeStampS js with
      | error e' =>
        rw [hread] at hrun
        cases hrun
        exact .inl ⟨rfl, nofun⟩
      | ok response =>
        obtain ⟨fragmentSize, blockSize, h, sig⟩ := response
        rw [hread] at hrun
        refine .inr ⟨fragmentSize, blockSize, h, sig, ?_, rfl, ?_⟩
        · rw [not_not.mp hproceed]
        · dsimp only at hrun
          rw [EStateM.run_bind] at hrun
          cases hsig : (readHashAndSig n blockId h sig).run s with
          | error e' t' =>
            rw [hsig] at hrun
            cases hrun
            rw [finalState_of_error hsig]
          | ok u t' =>
            rw [hsig] at hrun
            rw [finalState_of_ok hsig]
            dsimp only at hrun
            cases data with
            | none =>
              cases hrun
              rfl
            | some bytes =>
              dsimp only at hrun
              split_ifs at hrun
              · cases hrun
                rfl
              · rw [eq_of_addData_error hrun]

/-- What a rejected response leaves, for one call. -/
theorem sameExpectations_iff_settled {data : Option Bytes}
    (hrun : (downloadFragment n blockId lastTimeStampS fragmentIndex js data random).run s =
      .error e t) :
    SameExpectations s.download t.download ↔ Settled n blockId lastTimeStampS js s := by
  rcases download_of_rejected hrun with
    ⟨hsame, hunread⟩ | ⟨size, whole, h, sig, hstatus, hread, hleft⟩
  · rw [hsame]
    exact ⟨fun _ _ _ _ _ hone hread => absurd hread (hunread _ _ _ _ hone),
      fun _ => ⟨rfl, rfl, rfl, rfl, rfl⟩⟩
  · have hfragments : t.download.fragmentList = s.download.fragmentList := by
      rw [hleft]
      exact (sameFragments_readHashAndSig h sig).2
    have hiff : SameExpectations s.download t.download ↔
        s.download.blockHash ≠ [] ∧ ¬ BringsDaSig n blockId h sig s := by
      by_cases hnone : s.download.blockHash = []
      · have hfirst : (finalState (readHashAndSig n blockId h sig) s).download.blockHash = h :=
          by rw [download_readHashAndSig, hnone]; rfl
        rw [← hleft] at hfirst
        refine ⟨fun hsame => absurd ?_ (ne_nil_of_readResponse hread),
          fun hsettled => absurd hnone hsettled.1⟩
        rw [← hfirst, hsame.blockHash, hnone]
      · have hlater : (finalState (readHashAndSig n blockId h sig) s).download.blockHash = _ ∧
            (_ ↔ ¬ BringsDaSig n blockId h sig s) := settled_readHashAndSig hnone
        rw [← hleft] at hlater
        obtain ⟨hhash, hsig⟩ := hlater
        rw [← hsig]
        refine ⟨fun hsame => ⟨hnone, hsame.daSig⟩, fun hkept => ?_⟩
        exact ⟨hhash, by rw [hfragments], by rw [hfragments], hkept.2, by rw [hfragments]⟩
    rw [hiff]
    constructor
    · intro hsettled size' whole' h' sig' _ hread'
      rw [hread] at hread'
      cases hread'
      exact hsettled
    · exact fun hsettled => hsettled size whole h sig hstatus hread

/-! ### From the start of a download on -/

variable (n blockId)

/-- The states of a downloader: it was started and got responses; the session keys change
at any time. `past` are the session keys that the responses were read with. -/
inductive Responded : (past : List SessionCache) → Reading → Prop where
  | start {c : SessionCache} {d : Download} (h : startDownload n blockId = .ok d) :
      Responded [] ⟨c, d⟩
  | respond {past : List SessionCache} {s : Reading} (lastTimeStampS fragmentIndex : ℕ) (js : Json)
      (data : Option Bytes) (random : ℕ) (hs : Responded past s) :
      Responded (s.sessionPublicKeys :: past) (finalState
        (downloadFragment n blockId lastTimeStampS fragmentIndex js data random) s)
  | keys {past : List SessionCache} {s : Reading} (c : SessionCache) (hs : Responded past s) :
      Responded past {s with sessionPublicKeys := c}

variable {n blockId} {past : List SessionCache}

theorem Responded.partitioned (hs : Responded n blockId past s) :
    s.download.fragmentList.Partitioned := by
  induction hs with
  | start h =>
    have hreturn := after_check h
    cases hreturn
    exact partitioned_empty _ _
  | @respond past s lastTimeStampS fragmentIndex js data random hs ih =>
    rcases downloadFragment_run lastTimeStampS fragmentIndex js data random with
      ⟨-, hnothing⟩ | hadds
    · rw [finalState_of_ok hnothing]
      exact ih
    · cases hrun :
        (downloadFragment n blockId lastTimeStampS fragmentIndex js data random).run s with
      | error e t =>
        rw [hrun] at hadds
        rw [finalState_of_error hrun, hadds.2]
        exact ih
      | ok next t =>
        rw [hrun] at hadds
        obtain ⟨-, f, -, hadd⟩ := hadds
        rw [finalState_of_ok hrun]
        exact ih.addFragment hadd
  | keys c hs ih => exact ih

/-- In every state of a downloader, a call of `addFragment` that throws leaves the list as it
was, and a response that is not accepted leaves what later responses are compared with as it
was, exactly when its header could not be read, or a hash was known already and the response
did not bring the first DA signature. -/
theorem sameExpectations_iff_of_rejected (hs : Responded n blockId past s) :
    (∀ f random e l, (addFragmentInPlace f random).run
        s.download.fragmentList = .error e l → l = s.download.fragmentList) ∧
      ∀ lastTimeStampS fragmentIndex js data random e t,
        (downloadFragment n blockId lastTimeStampS fragmentIndex js data random).run s =
          .error e t →
        (SameExpectations s.download t.download ↔ Settled n blockId lastTimeStampS js s) := by
  refine ⟨fun f random e l hrun => ?_, fun _ _ _ _ _ _ _ => sameExpectations_iff_settled⟩
  rw [addFragmentInPlace_run hs.partitioned] at hrun
  split at hrun
  · cases hrun
  · cases hrun
    rfl

end Rejected

/-! ### The first answer comes from a faulty node -/

/-- A response that names another hash than the one decided on; no data follow. -/
def forged : Json :=
  .object [("status", .number 1), ("fragmentSize", .number 7), ("blockSize", .number 13),
    ("blockHash", .string (toHex (offeredHash 0)))]

/-- Node 1 when it starts to download, and when it has the first fragment. -/
def opened : Reading :=
  ⟨default, ⟨[], none, .empty 1 3, fun i => if i ∈ List.range' 1 4 ∧ i ≠ 1 then
    .loop (if 1 < i then i - 1 else i) else .stopped⟩⟩

def afterFirst : Reading :=
  finalState (downloadFragment nodeOne 1 0 1 (response 1) (some (fragment 1)) 0) opened

theorem settled_forged : Settled nodeOne 1 0 forged afterFirst := by
  intro size whole h sig _ hread
  have hforged : readResponse nodeOne 0 forged = .ok (7, 13, toHex (offeredHash 0), []) := rfl
  rw [hforged] at hread
  cases hread
  refine ⟨by decide +kernel, fun hbrings => ?_⟩
  have hsig := (Bool.and_eq_true_iff.mp hbrings.2.1).2
  cases hsig

theorem responded_afterFirst : Responded nodeOne 1 [opened.sessionPublicKeys] afterFirst :=
  .respond 0 1 (response 1) (some (fragment 1)) 0 (.start rfl)

/-- With the first fragment there, the forged response leaves nothing behind. -/
theorem sameExpectations_after_honest :
    ∃ e t, (downloadFragment nodeOne 1 0 2 forged none 0).run afterFirst = .error e t ∧
      SameExpectations afterFirst.download t.download := by
  have hthrows : returns (downloadFragment nodeOne 1 0 2 forged none 0) afterFirst = false := by
    decide +kernel
  obtain ⟨e, t, hrun⟩ := run_of_not_returns hthrows
  exact ⟨e, t, hrun, ((sameExpectations_iff_of_rejected responded_afterFirst).2 _ _ _ _ _ _ _
    hrun).mpr settled_forged⟩

/-- If the forged response is the first, what an honest node sends is no longer accepted. -/
theorem honest_rejected_after_forged :
    Responded nodeOne 1 [] opened ∧
    returns (downloadFragment nodeOne 1 0 1 (response 1) (some (fragment 1)) 0) opened = true ∧
    ∃ e t, (downloadFragment nodeOne 1 0 2 forged none 0).run opened = .error e t ∧
      ¬ SameExpectations opened.download t.download ∧
      returns (downloadFragment nodeOne 1 0 1 (response 1) (some (fragment 1)) 0) t = false := by
  refine ⟨.start rfl, by decide +kernel, _, _, rfl, fun h => ?_, by decide +kernel⟩
  exact absurd h.blockHash (by decide +kernel)

end SkaleConsensus.Finalize
