import SkaleConsensus.Block.Serialize

/-! Reading from a socket.

A stream is what the peer writes before it shuts the socket down. Bytes are taken from its front; a
header is a JSON object behind its length. What is not read stays in the stream. Time-outs and the
address of the peer, which ends the messages, are left out. -/
namespace SkaleConsensus.Network
open Library Block

def MAX_TRANSACTIONS_PER_BLOCK : ℕ := 8 * 1024
def MAX_HEADER_SIZE : ℕ := 8 * MAX_TRANSACTIONS_PER_BLOCK

def readBytes (len : ℕ) (stream : Bytes) : Except String (Bytes × Bytes) := do
  checkArgument (decide (0 < len)) "_len > 0"
  if stream.length < len then
    throw ("The peer shut down the socket, bytes to read:" ++ toString (len - stream.length))
  return (stream.take len, stream.drop len)

def readJsonHeader (json : Bytes → Option Json) (errorString : String) (stream : Bytes) :
    Except String (Json × Bytes) := do
  let (buf2, stream) ← (readBytes 8 stream).mapError
    fun _ => errorString ++ ":Could not read header len from:"
  let headerLen := fromLeBytes buf2
  if headerLen < 2 ∨ MAX_HEADER_SIZE < headerLen then
    throw (errorString ++ ":Invalid Header len from:" ++ toString headerLen)
  let (buf, stream) ← (readBytes headerLen stream).mapError
    fun _ => errorString ++ ":Could not read headerLen bytes from :" ++ toString headerLen
  match json buf with
  | none => throw (errorString ++ ":Could not parse request from")
  | some js => return (js, stream)

/-- `BasicHeader::toBuffer`, for a header with these fields. -/
def headerToBuffer (dump : Json → Bytes) (fields : Json) : Except String Bytes := do
  let s := dump fields
  checkState (decide (16 < s.length)) "s.size() > 16"
  headerBuffer s

/-- The JSON library reads the header as it printed it. -/
structure Carried (json : Bytes → Option Json) (dump : Json → Bytes) (fields : Json) : Prop where
  json : json (dump fields) = some fields
  long : 16 < (dump fields).length

variable {json : Bytes → Option Json} {dump : Json → Bytes} {fields : Json}

theorem readBytes_append {bytes : Bytes} (h : bytes ≠ []) (rest : Bytes) :
    readBytes bytes.length (bytes ++ rest) = .ok (bytes, rest) := by
  have hshort : ¬ (bytes ++ rest).length < bytes.length := by
    rw [List.length_append]
    omega
  unfold readBytes
  rw [decide_eq_true (List.length_pos_of_ne_nil h)]
  refine bind_eq_ok.mpr ⟨(), rfl, ?_⟩
  rw [if_neg hshort, List.take_left, List.drop_left]
  rfl

theorem headerToBuffer_eq_ok {buf : Bytes} :
    headerToBuffer dump fields = .ok buf ↔
      16 < (dump fields).length ∧ (dump fields).length + 8 ≤ MAX_BUFFER_SIZE ∧
        buf = leBytes 8 (dump fields).length ++ dump fields := by
  have hcounter : ∀ text : Bytes, 16 < text.length →
      decide (10 ≤ (leBytes 8 text.length ++ text).length) = true := by
    intro text hlong
    rw [List.length_append, length_leBytes, decide_eq_true_iff]
    omega
  unfold headerToBuffer headerBuffer
  constructor
  · intro h
    obtain ⟨⟨⟩, hlong, h₁⟩ := bind_eq_ok.mp h
    obtain ⟨⟨⟩, hshort, h₂⟩ := bind_eq_ok.mp h₁
    have h₃ := after_check h₂
    exact ⟨of_decide_eq_true (checkState_eq_ok.mp hlong),
      of_decide_eq_true (checkArgument_eq_ok.mp hshort), (Except.ok.inj h₃).symm⟩
  · rintro ⟨hlong, hshort, rfl⟩
    refine checkState_bind_eq_ok.mpr ⟨decide_eq_true hlong, ?_⟩
    refine checkArgument_bind_eq_ok.mpr ⟨decide_eq_true hshort, ?_⟩
    exact checkState_bind_eq_ok.mpr ⟨hcounter _ hlong, rfl⟩

theorem Carried.headerToBuffer_eq (h : Carried json dump fields)
    (hshort : (dump fields).length ≤ MAX_HEADER_SIZE) :
    headerToBuffer dump fields = .ok (leBytes 8 (dump fields).length ++ dump fields) := by
  have hle : MAX_HEADER_SIZE + 8 ≤ MAX_BUFFER_SIZE := by decide
  exact headerToBuffer_eq_ok.mpr ⟨h.long, by omega, rfl⟩

/-- A header that was written is read, unless it is longer than a header may be. -/
theorem readJsonHeader_append (h : Carried json dump fields) (errorString : String) (rest : Bytes)
    {r : Json × Bytes} (hfits : (dump fields).length < 2 ^ 64) :
    readJsonHeader json errorString (leBytes 8 (dump fields).length ++ dump fields ++ rest) =
        .ok r ↔
      (dump fields).length ≤ MAX_HEADER_SIZE ∧ r = (fields, rest) := by
  have hlong := h.long
  have hlen : fromLeBytes (leBytes 8 (dump fields).length) = (dump fields).length := by
    rw [fromLeBytes_leBytes]
    exact Nat.mod_eq_of_lt hfits
  have hne : leBytes 8 (dump fields).length ≠ [] := List.cons_ne_nil _ _
  have hfirst := readBytes_append hne (dump fields ++ rest)
  rw [length_leBytes] at hfirst
  have hsecond : readBytes (dump fields).length (dump fields ++ rest) = .ok (dump fields, rest) :=
    readBytes_append (List.ne_nil_of_length_pos (by omega)) rest
  unfold readJsonHeader
  rw [List.append_assoc]
  constructor
  · intro heq
    obtain ⟨⟨buf2, stream⟩, h₁, h₂⟩ := bind_eq_ok.mp heq
    obtain ⟨rfl, rfl⟩ := Prod.mk.inj (Except.ok.inj (hfirst.symm.trans (mapError_eq_ok.mp h₁)))
    dsimp only at h₂
    rw [hlen] at h₂
    by_cases hbad : (dump fields).length < 2 ∨ MAX_HEADER_SIZE < (dump fields).length
    · rw [if_pos hbad] at h₂
      cases h₂
    · rw [if_neg hbad] at h₂
      obtain ⟨⟨buf, stream⟩, h₃, h₄⟩ := bind_eq_ok.mp h₂
      obtain ⟨rfl, rfl⟩ := Prod.mk.inj (Except.ok.inj (hsecond.symm.trans (mapError_eq_ok.mp h₃)))
      rw [h.json] at h₄
      exact ⟨by omega, (Except.ok.inj h₄).symm⟩
  · rintro ⟨hmax, rfl⟩
    refine bind_eq_ok.mpr ⟨_, mapError_eq_ok.mpr hfirst, ?_⟩
    dsimp only
    rw [hlen, if_neg (by omega)]
    refine bind_eq_ok.mpr ⟨_, mapError_eq_ok.mpr hsecond, ?_⟩
    dsimp only
    rw [h.json]
    rfl

end SkaleConsensus.Network
