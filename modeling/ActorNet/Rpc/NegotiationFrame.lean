import Mathlib.Algebra.Order.BigOperators.Group.List
import ActorNet.Rpc.Frame

/-!
# The negotiation frame

Twelve bytes of magic and length, then one record for each feature: its number,
the length of its data, the data. The reader bounds every length by what is
left; the two sides then decode connection ids out of the data, whose length
nobody checks.
-/

namespace ActorNet.Rpc

open Lib

/-! ## The wire -/

/-- `rpc_magic`. -/
def rpcMagic : List Byte := [0x53, 0x53, 0x54, 0x41, 0x52, 0x52, 0x50, 0x43]

/-- `sizeof(negotiation_frame)`. -/
def negotiationFrameLen : Nat := 12

def ProtocolFeature.raw (f : ProtocolFeature) : BitVec 32 := BitVec.ofNat 32 f.code

/-- `static_cast<protocol_features>`. -/
def ProtocolFeature.ofRaw (raw : BitVec 32) : ProtocolFeature :=
  if raw = 0 then .compress
  else if raw = 1 then .timeout
  else if raw = 2 then .connectionId
  else if raw = 3 then .streamParent
  else if raw = 4 then .isolation
  else .other raw

/-- The bytes of one feature. -/
def featureRecord (feature : BitVec 32) (data : Sstring) : List Byte :=
  toBytesLE 4 feature.toNat ++ toBytesLE 4 data.length ++ data

/-- The lengths of all records, added up in 32 bits. -/
def extraLen (features : FeatureMap) : BitVec 32 :=
  features.foldl (fun len e => len + BitVec.ofNat 32 (8 + e.2.length)) 0

/-- `send_negotiation_frame`; `none` is a write behind the end of `reply`. -/
def sendNegotiationFrame (features : FeatureMap) : Option (List Byte) :=
  let extra := features.flatMap fun e => featureRecord e.1.raw e.2
  if extra.length ≤ (extraLen features).toNat then
    some (rpcMagic ++ toBytesLE 4 (extraLen features).toNat ++ extra)
  else none

/-- How `receive_negotiation_frame` fails: with a `closed_error`, or by reading a
byte that is not there. -/
inductive ReceiveError
  | eof (anything : Bool)
  | wrongMagic
  | eofInFeatures
  | badFormat
  | underflow
  | overread
  deriving DecidableEq, Repr

/-- What the peer's address is logged with. -/
def ReceiveError.log : ReceiveError → Option String
  | eof anything => if anything then some "unexpected eof during negotiation frame" else none
  | wrongMagic => some "wrong protocol magic"
  | eofInFeatures => some "unexpected eof during negotiation frame"
  | badFormat => some "bad feature data format in negotiation frame"
  | underflow => some "buffer underflow in feature data in negotiation frame"
  | overread => none

/-- `read_le` of so many bytes at `p`, which has these bytes in front of `end`. -/
def readInside (n : Nat) (p : List Byte) : Except ReceiveError Nat :=
  if n ≤ p.length then .ok (ofBytesLE (p.take n)) else .error .overread

/-- The loop over the records. -/
def readFeatures (map : FeatureMap) (p : List Byte) : Except ReceiveError FeatureMap :=
  if p = [] then .ok map
  else if p.length < 8 then .error .badFormat
  else do
    let feature ← readInside 4 p
    let fLen ← readInside 4 (p.drop 4)
    let p' := p.drop 8
    if p'.length < fLen then .error .underflow
    else
      readFeatures (map.emplace (ProtocolFeature.ofRaw (BitVec.ofNat 32 feature)) (p'.take fLen))
        (p'.drop fLen)
termination_by p.length
decreasing_by simp only [List.length_drop]; omega

/-- `receive_negotiation_frame`. -/
def receiveNegotiationFrame {σ : Type} [InputStream Byte σ] (s : σ) :
    Except ReceiveError FeatureMap × σ :=
  let (neg, s) := InputStream.readExactly negotiationFrameLen s
  if neg.length ≠ negotiationFrameLen then (.error (.eof (!neg.isEmpty)), s)
  else
    let len := readLE 4 neg 8
    if neg.take 8 ≠ rpcMagic then (.error .wrongMagic, s)
    else
      let (extra, s) := InputStream.readExactly len s
      if extra.length ≠ len then (.error .eofInFeatures, s)
      else (readFeatures [] extra, s)

/-! ## Maps and records -/

/-- A `std::map` of features: the keys ascend, and a number that has a name is
never `other`. -/
structure FeatureMap.Valid (m : FeatureMap) : Prop where
  sorted : OrdMap.Sorted FeatureMap.lt m
  named : ∀ e ∈ m, ProtocolFeature.ofRaw e.1.raw = e.1

/-- The bytes of the records of a map. -/
def FeatureMap.encodedSize (m : FeatureMap) : Nat := (m.map fun e => 8 + e.2.length).sum

/-- The bytes of these records. -/
def recordBytes (records : List (BitVec 32 × Sstring)) : List Byte :=
  records.flatMap fun r => featureRecord r.1 r.2

/-- What records that come in this order make of a map: the first one of a
feature counts. -/
def FeatureMap.takeRecords (m : FeatureMap) (records : List (BitVec 32 × Sstring)) : FeatureMap :=
  records.foldl (fun m r => m.emplace (ProtocolFeature.ofRaw r.1) r.2) m

theorem lt_trans {a b c : ProtocolFeature} (first : FeatureMap.lt a b = true)
    (second : FeatureMap.lt b c = true) : FeatureMap.lt a c = true :=
  decide_eq_true (Nat.lt_trans (of_decide_eq_true first) (of_decide_eq_true second))

@[simp] theorem length_featureRecord (feature : BitVec 32) (data : Sstring) :
    (featureRecord feature data).length = 8 + data.length := by
  simp only [featureRecord, List.length_append, length_toBytesLE]

theorem length_records (m : FeatureMap) :
    (m.flatMap fun e => featureRecord e.1.raw e.2).length = m.encodedSize := by
  simp [FeatureMap.encodedSize, List.length_flatMap]

/-- Below 2^32 nothing is lost of the length. -/
theorem toNat_extraLen {m : FeatureMap} (fits : m.encodedSize < 2 ^ 32) :
    (extraLen m).toNat = m.encodedSize := by
  have grows : ∀ (m : FeatureMap) (len : BitVec 32),
      len.toNat + FeatureMap.encodedSize m < 2 ^ 32 →
      (m.foldl (fun len e => len + BitVec.ofNat 32 (8 + e.2.length)) len).toNat =
        len.toNat + FeatureMap.encodedSize m := by
    intro m
    induction m with
    | nil => exact fun _ _ => rfl
    | cons e m ih =>
        intro len room
        have size : FeatureMap.encodedSize (e :: m) =
            8 + e.2.length + FeatureMap.encodedSize m := rfl
        have value : (len + BitVec.ofNat 32 (8 + e.2.length)).toNat =
            len.toNat + (8 + e.2.length) := by
          rw [BitVec.toNat_add, BitVec.toNat_ofNat]
          omega
        rw [List.foldl_cons, ih _ (by omega), value, size]
        omega
  have all := grows m 0 (by simpa using fits)
  simpa [extraLen] using all

theorem sendNegotiationFrame_eq {m : FeatureMap} (fits : m.encodedSize < 2 ^ 32) :
    sendNegotiationFrame m = some (rpcMagic ++ toBytesLE 4 m.encodedSize ++
      m.flatMap fun e => featureRecord e.1.raw e.2) := by
  unfold sendNegotiationFrame
  dsimp only
  rw [length_records, toNat_extraLen fits, if_pos (Nat.le_refl _)]

/-! ## The loop over the records -/

theorem readFeatures_nil (map : FeatureMap) : readFeatures map [] = .ok map := by
  rw [readFeatures.eq_def]
  rfl

theorem readFeatures_short {map : FeatureMap} {p : List Byte} (some_ : p ≠ [])
    (short : p.length < 8) : readFeatures map p = .error .badFormat := by
  rw [readFeatures.eq_def, if_neg some_, if_pos short]

/-- With eight bytes there, the number and the length are read inside. -/
theorem readFeatures_long {map : FeatureMap} {p : List Byte} (long : 8 ≤ p.length) :
    readFeatures map p =
      if (p.drop 8).length < ofBytesLE ((p.drop 4).take 4) then .error .underflow
      else readFeatures
        (map.emplace (ProtocolFeature.ofRaw (BitVec.ofNat 32 (ofBytesLE (p.take 4))))
          ((p.drop 8).take (ofBytesLE ((p.drop 4).take 4))))
        ((p.drop 8).drop (ofBytesLE ((p.drop 4).take 4))) := by
  have some_ : p ≠ [] := by
    rintro rfl
    exact absurd long (by decide)
  have first : readInside 4 p = .ok (ofBytesLE (p.take 4)) := if_pos (by omega)
  have second : readInside 4 (p.drop 4) = .ok (ofBytesLE ((p.drop 4).take 4)) :=
    if_pos (by rw [List.length_drop]; omega)
  rw [readFeatures.eq_def, if_neg some_, if_neg (Nat.not_lt.mpr long), first, second]
  rfl

/-- No byte outside is read, whatever the frame holds. -/
theorem readFeatures_inside (map : FeatureMap) (p : List Byte) :
    readFeatures map p ≠ .error .overread := by
  induction length : p.length using Nat.strong_induction_on generalizing map p with
  | _ n ih =>
    by_cases none : p = []
    · rw [none, readFeatures_nil]
      exact fun bad => (nomatch bad)
    by_cases short : p.length < 8
    · rw [readFeatures_short none short]
      exact fun bad => (nomatch bad)
    rw [readFeatures_long (Nat.not_lt.mp short)]
    split
    · exact fun bad => (nomatch bad)
    · refine ih _ ?_ _ _ rfl
      simp only [List.length_drop]
      omega

/-- A record is read back, and the rest is read after it. -/
theorem readFeatures_record {map : FeatureMap} {feature : BitVec 32} {data : Sstring}
    (fits : data.length < 2 ^ 32) (rest : List Byte) :
    readFeatures map (featureRecord feature data ++ rest) =
      readFeatures (map.emplace (ProtocolFeature.ofRaw feature) data) rest := by
  have number : (featureRecord feature data ++ rest).take 4 = toBytesLE 4 feature.toNat := by
    rw [featureRecord, List.append_assoc, List.append_assoc, List.take_left' (length_toBytesLE ..)]
  have behind : (featureRecord feature data ++ rest).drop 4 =
      toBytesLE 4 data.length ++ (data ++ rest) := by
    rw [featureRecord, List.append_assoc, List.append_assoc, List.drop_left' (length_toBytesLE ..)]
  have payload : (featureRecord feature data ++ rest).drop 8 = data ++ rest := by
    have four : (8 : Nat) = 4 + 4 := rfl
    rw [four, ← List.drop_drop, behind, List.drop_left' (length_toBytesLE ..)]
  have read : ofBytesLE (toBytesLE 4 feature.toNat) = feature.toNat :=
    ofBytesLE_toBytesLE_of_lt feature.isLt
  have size : ofBytesLE (toBytesLE 4 data.length) = data.length :=
    ofBytesLE_toBytesLE_of_lt fits
  have long : 8 ≤ (featureRecord feature data ++ rest).length := by
    rw [List.length_append, length_featureRecord]
    omega
  rw [readFeatures_long long, behind, payload, number, List.take_left' (length_toBytesLE ..), read,
    size, BitVec.ofNat_toNat, BitVec.setWidth_eq, List.take_left, List.drop_left]
  exact if_neg (by rw [List.length_append]; omega)

/-- The records a frame is read as. -/
theorem readFeatures_records (map : FeatureMap) {records : List (BitVec 32 × Sstring)}
    (fits : ∀ r ∈ records, r.2.length < 2 ^ 32) :
    readFeatures map (recordBytes records) =
      .ok (map.takeRecords records) := by
  induction records generalizing map with
  | nil => exact readFeatures_nil map
  | cons r records ih =>
      obtain ⟨first, rest⟩ := List.forall_mem_cons.mp fits
      rw [recordBytes, List.flatMap_cons, readFeatures_record first]
      exact ih _ rest

theorem ofBytesLE_take_lt (p : List Byte) : ofBytesLE (p.take 4) < 2 ^ 32 := by
  have bound := ofBytesLE_lt (rfl : (p.take 4).length = _)
  have few : (p.take 4).length ≤ 4 := by simp
  calc ofBytesLE (p.take 4)
    _ < 2 ^ (8 * (p.take 4).length) := bound
    _ ≤ 2 ^ 32 := Nat.pow_le_pow_right (by decide) (by omega)

/-- What is read without an error is a sequence of records. -/
theorem records_of_readFeatures {map map' : FeatureMap} {p : List Byte}
    (ok : readFeatures map p = .ok map') :
    ∃ records : List (BitVec 32 × Sstring),
      p = recordBytes records ∧ map' = map.takeRecords records := by
  induction length : p.length using Nat.strong_induction_on generalizing map p with
  | _ n ih =>
    by_cases none : p = []
    · rw [none, readFeatures_nil] at ok
      exact ⟨[], none, (Except.ok.inj ok).symm⟩
    by_cases short : p.length < 8
    · rw [readFeatures_short none short] at ok
      cases ok
    have long := Nat.not_lt.mp short
    rw [readFeatures_long long] at ok
    split at ok
    · cases ok
    rename_i enough
    obtain ⟨records, rest, result⟩ := ih _ (by simp only [List.length_drop]; omega) ok rfl
    have taken : ((p.drop 8).take (ofBytesLE ((p.drop 4).take 4))).length =
        ofBytesLE ((p.drop 4).take 4) := by
      rw [List.length_take]
      omega
    have number : toBytesLE 4 (BitVec.ofNat 32 (ofBytesLE (p.take 4))).toNat = p.take 4 := by
      have back := toBytesLE_ofBytesLE (p.take 4)
      have four : (p.take 4).length = 4 := by rw [List.length_take]; omega
      rw [four] at back
      rw [BitVec.toNat_ofNat, Nat.mod_eq_of_lt (ofBytesLE_take_lt p), back]
    have lengthBytes : toBytesLE 4 (ofBytesLE ((p.drop 4).take 4)) = (p.drop 4).take 4 := by
      have back := toBytesLE_ofBytesLE ((p.drop 4).take 4)
      have four : ((p.drop 4).take 4).length = 4 := by
        rw [List.length_take, List.length_drop]
        omega
      rwa [four] at back
    refine ⟨(BitVec.ofNat 32 (ofBytesLE (p.take 4)),
      (p.drop 8).take (ofBytesLE ((p.drop 4).take 4))) :: records, ?_, result⟩
    show p = featureRecord _ _ ++ recordBytes records
    rw [← rest, featureRecord, number, taken, lengthBytes, List.append_assoc,
      List.take_append_drop, List.append_assoc]
    have eight : p.drop 8 = (p.drop 4).drop 4 := by rw [List.drop_drop]
    rw [eight, List.take_append_drop, List.take_append_drop]

/-- The entries of a map come in its order, so each is put behind the others. -/
theorem takeRecords_entries {before after : FeatureMap} (valid : FeatureMap.Valid (before ++ after)) :
    FeatureMap.takeRecords before (after.map fun e => (e.1.raw, e.2)) = before ++ after := by
  induction after generalizing before with
  | nil => exact (List.append_nil before).symm
  | cons e after ih =>
      have last : FeatureMap.emplace before e.1 e.2 = before ++ [e] := by
        have left : ∀ e' ∈ before, FeatureMap.lt e.1 e'.1 = false ∧ FeatureMap.lt e'.1 e.1 = true := by
          intro e' member
          have earlier := (List.pairwise_append.mp valid.sorted).2.2 e' member e List.mem_cons_self
          have codes : e'.1.code < e.1.code := of_decide_eq_true earlier
          exact ⟨decide_eq_false (Nat.not_lt.mpr (Nat.le_of_lt codes)), earlier⟩
        have behind := @OrdMap.emplace_append _ _ FeatureMap.lt e.1 e.2 before [] left
        rwa [List.append_nil] at behind
      have named : ProtocolFeature.ofRaw e.1.raw = e.1 :=
        valid.named e (List.mem_append_right before List.mem_cons_self)
      have valid' : FeatureMap.Valid ((before ++ [e]) ++ after) := by
        rwa [List.append_assoc]
      have rest := ih valid'
      rw [List.append_assoc] at rest
      show FeatureMap.takeRecords (FeatureMap.emplace before (ProtocolFeature.ofRaw e.1.raw) e.2) _ = _
      rw [named, last]
      exact rest

/-! ## Frames in a stream -/

/-- The bytes begin with the frame of these records. -/
def BeginsWithFrame (bytes : List Byte) (records : List (BitVec 32 × Sstring)) : Prop :=
  (recordBytes records).length < 2 ^ 32 ∧ ∃ tail,
    bytes = rpcMagic ++ toBytesLE 4 (recordBytes records).length ++ recordBytes records ++ tail

theorem record_fits {records : List (BitVec 32 × Sstring)} {n : Nat}
    (fits : (recordBytes records).length < n) : ∀ r ∈ records, r.2.length < n := by
  intro r member
  have sizes : (recordBytes records).length = (records.map fun r => 8 + r.2.length).sum := by
    simp [recordBytes, List.length_flatMap]
  have part : 8 + r.2.length ≤ (records.map fun r => 8 + r.2.length).sum :=
    List.single_le_sum (fun _ _ => Nat.zero_le _) _ (List.mem_map_of_mem member)
  omega

section

variable {σ : Type} [InputStream Byte σ]

/-- A frame is read from a stream whatever pieces it comes in. -/
theorem receive_frame {s : σ} {extra tail : List Byte} (fits : extra.length < 2 ^ 32)
    (content : InputStream.content s = rpcMagic ++ toBytesLE 4 extra.length ++ extra ++ tail) :
    (receiveNegotiationFrame s).1 = readFeatures [] extra ∧
      InputStream.content (receiveNegotiationFrame s).2 = tail := by
  have header : (rpcMagic ++ toBytesLE 4 extra.length).length = negotiationFrameLen := by
    simp [rpcMagic, negotiationFrameLen]
  have neg : (InputStream.readExactly negotiationFrameLen s).1 =
      rpcMagic ++ toBytesLE 4 extra.length := by
    rw [InputStream.readExactly_data, content, List.append_assoc, List.take_left' header]
  have rest : InputStream.content (InputStream.readExactly negotiationFrameLen s).2 =
      extra ++ tail := by
    rw [InputStream.readExactly_rest, content, List.append_assoc, List.drop_left' header]
  have magic : (rpcMagic ++ toBytesLE 4 extra.length).take 8 = rpcMagic := List.take_left' rfl
  have len : readLE 4 (rpcMagic ++ toBytesLE 4 extra.length) 8 = extra.length := by
    have behind : (rpcMagic ++ toBytesLE 4 extra.length).drop 8 = toBytesLE 4 extra.length :=
      List.drop_left' rfl
    rw [readLE, behind, List.take_of_length_le (by rw [length_toBytesLE]),
      ofBytesLE_toBytesLE_of_lt fits]
  unfold receiveNegotiationFrame
  dsimp only
  rw [neg, if_neg (fun bad => bad header), if_neg (fun bad => bad magic), len,
    InputStream.readExactly_data, rest, List.take_left, if_neg (fun bad => bad rfl)]
  refine ⟨rfl, ?_⟩
  rw [InputStream.readExactly_rest, rest, List.drop_left]

/-- What is received is a frame of records. -/
theorem frame_of_receive {s : σ} {m : FeatureMap} (ok : (receiveNegotiationFrame s).1 = .ok m) :
    ∃ records, BeginsWithFrame (InputStream.content s) records ∧
      m = FeatureMap.takeRecords [] records := by
  unfold receiveNegotiationFrame at ok
  dsimp only at ok
  split at ok
  · cases ok
  rename_i complete
  have complete := not_not.mp complete
  split at ok
  · cases ok
  rename_i magic
  have magic := not_not.mp magic
  split at ok
  · cases ok
  rename_i whole
  have whole := not_not.mp whole
  obtain ⟨records, extra, result⟩ := records_of_readFeatures ok
  rw [InputStream.readExactly_data] at complete magic whole extra
  rw [InputStream.readExactly_data, InputStream.readExactly_rest] at whole extra
  -- the header as it stands in the stream, and the length it gives
  have header : (InputStream.content s).take negotiationFrameLen =
      rpcMagic ++ toBytesLE 4
        (readLE 4 ((InputStream.content s).take negotiationFrameLen) 8) := by
    have lengthBytes : (((InputStream.content s).take negotiationFrameLen).drop 8).length = 4 := by
      rw [List.length_drop, complete]
      rfl
    have back := toBytesLE_ofBytesLE (((InputStream.content s).take negotiationFrameLen).drop 8)
    rw [lengthBytes] at back
    rw [readLE, List.take_of_length_le (Nat.le_of_eq lengthBytes), back]
    exact ((List.take_append_drop 8 _).symm).trans (congrArg (· ++ _) magic)
  rw [extra] at whole
  let len := readLE 4 ((InputStream.content s).take negotiationFrameLen) 8
  have small : len < 2 ^ 32 := ofBytesLE_take_lt _
  refine ⟨records, ⟨by rw [whole]; exact small,
    ((InputStream.content s).drop negotiationFrameLen).drop len, ?_⟩, result⟩
  rw [whole, ← header, ← extra, List.append_assoc, List.take_append_drop, List.take_append_drop]

/-- No byte outside the frame is read while it is parsed. -/
theorem receive_inside (s : σ) : (receiveNegotiationFrame s).1 ≠ .error .overread := by
  unfold receiveNegotiationFrame
  dsimp only
  split
  · exact fun bad => (nomatch bad)
  split
  · exact fun bad => (nomatch bad)
  split
  · exact fun bad => (nomatch bad)
  · exact readFeatures_inside [] _

theorem receive_ok_iff {s : σ} {m : FeatureMap} :
    (receiveNegotiationFrame s).1 = .ok m ↔
      ∃ records, BeginsWithFrame (InputStream.content s) records ∧
        m = FeatureMap.takeRecords [] records := by
  refine ⟨frame_of_receive, ?_⟩
  rintro ⟨records, ⟨fits, tail, content⟩, rfl⟩
  rw [(receive_frame fits content).1]
  exact readFeatures_records [] (record_fits fits)

/-- What is sent is received. -/
theorem receive_send {m : FeatureMap} (valid : m.Valid) (fits : m.encodedSize < 2 ^ 32) {s : σ}
    {bytes tail : List Byte} (sent : sendNegotiationFrame m = some bytes)
    (content : InputStream.content s = bytes ++ tail) :
    (receiveNegotiationFrame s).1 = .ok m ∧
      InputStream.content (receiveNegotiationFrame s).2 = tail := by
  have records : (m.flatMap fun e => featureRecord e.1.raw e.2) =
      recordBytes (m.map fun e => (e.1.raw, e.2)) := by
    rw [recordBytes, List.flatMap_map]
  have size := length_records m
  rw [sendNegotiationFrame_eq fits, records] at sent
  obtain rfl := Option.some.inj sent
  rw [records] at size
  have short : (recordBytes (m.map fun e => (e.1.raw, e.2))).length < 2 ^ 32 := by
    rw [size]
    exact fits
  have read := @receive_frame σ _ s _ tail short (by rw [size]; exact content)
  have entries := @takeRecords_entries [] m valid
  rw [List.nil_append] at entries
  rw [readFeatures_records [] (record_fits short), entries] at read
  exact read

end

/-! ## Acting on the features -/

/-- The elements a loop comes to: up to the first that ends it. -/
def processed {ε α τ : Type} (step : τ → α → Except ε τ) : τ → List α → List α
  | _, [] => []
  | t, a :: as =>
      a :: match step t a with
        | .ok t => processed step t as
        | .error _ => []

/-- An error comes from an element the loop came to. -/
theorem processed_error {ε α τ : Type} {step : τ → α → Except ε τ} {t : τ} {as : List α} {e : ε}
    (failed : as.foldlM step t = .error e) : ∃ a ∈ processed step t as, ∃ t', step t' a = .error e := by
  induction as generalizing t with
  | nil => cases failed
  | cons a as ih =>
      cases result : step t a with
      | error e' =>
          simp only [List.foldlM_cons, result, bind, Except.bind] at failed
          cases failed
          exact ⟨a, List.mem_cons_self, t, result⟩
      | ok t' =>
          simp only [List.foldlM_cons, result, bind, Except.bind] at failed
          obtain ⟨a', member, later⟩ := ih failed
          refine ⟨a', ?_, later⟩
          rw [processed, result]
          exact .tail _ member

theorem mem_of_processed {ε α τ : Type} {step : τ → α → Except ε τ} {t : τ} {as : List α} {a : α}
    (member : a ∈ processed step t as) : a ∈ as := by
  induction as generalizing t with
  | nil => cases member
  | cons a' as ih =>
      rw [processed] at member
      rcases List.mem_cons.mp member with rfl | member
      · exact List.mem_cons_self
      · cases result : step t a' with
        | error e => rw [result] at member; cases member
        | ok t' => rw [result] at member; exact .tail _ (ih member)

/-- What a server decodes as connection ids. -/
def ServerOptions.decodedIds (o : ServerOptions) (requested : FeatureMap) : List Sstring :=
  (processed (ServerNegotiation.entry o) ⟨Link.initial, [], false, none⟩ requested).filterMap
    fun e => if e.1 = .streamParent ∧ o.streamingDomain = true then some e.2 else none

/-- What a client decodes as connection ids. -/
def ClientOptions.decodedIds (o : ClientOptions) (provided : FeatureMap) : List Sstring :=
  (processed (ClientNegotiation.entry o) ⟨Link.initial, 0xffff#64⟩ provided).filterMap
    fun e => if e.1 = .connectionId then some e.2 else none

/-- A connection id is decoded from eight bytes of the feature, not from what
stands behind it. -/
def IdInside (data : Sstring) : Prop := 8 ≤ data.length

section

variable {σ : Type} [InputStream Byte σ]

/-- `server::connection::negotiate_protocol` on what a peer sends: it succeeds or
fails with an error, and reads only bytes of the frame. -/
def ServerOptions.ReadsFrame (o : ServerOptions) (id : ConnectionId) (s : σ) : Prop :=
  (receiveNegotiationFrame s).1 ≠ .error .overread ∧
    ∀ requested, (receiveNegotiationFrame s).1 = .ok requested →
      o.negotiate id requested ≠ .error .connectionIdOverread ∧
        ∀ data ∈ o.decodedIds requested, IdInside data

/-- `client::negotiate_protocol`, in the same way. -/
def ClientOptions.ReadsFrame (o : ClientOptions) (s : σ) : Prop :=
  (receiveNegotiationFrame s).1 ≠ .error .overread ∧
    ∀ provided, (receiveNegotiationFrame s).1 = .ok provided →
      o.negotiate provided ≠ .error .connectionIdOverread ∧
        ∀ data ∈ o.decodedIds provided, IdInside data

end

theorem takeRecords_sorted {m : FeatureMap} (sorted : OrdMap.Sorted FeatureMap.lt m)
    (records : List (BitVec 32 × Sstring)) :
    OrdMap.Sorted FeatureMap.lt (FeatureMap.takeRecords m records) := by
  induction records generalizing m with
  | nil => exact sorted
  | cons r records ih => exact ih (sorted.emplace fun _ _ _ => lt_trans)

theorem deserialize_inside {data : Sstring} (inside : IdInside data) :
    ∃ id, deserializeConnectionId data = some id := by
  unfold IdInside at inside
  exact ⟨_, if_neg (by omega)⟩

/-! ### The server -/

/-- Up to CONNECTION_ID nothing makes a server stop. -/
theorem serverEntry_ok (o : ServerOptions) (s : ServerNegotiation) {e : ProtocolFeature × Sstring}
    (early : e.1.code < 3) : ∃ s', ServerNegotiation.entry o s e = .ok s' := by
  obtain ⟨feature, data⟩ := e
  cases feature with
  | compress =>
      unfold ServerNegotiation.entry
      dsimp only
      split
      · split <;> exact ⟨_, rfl⟩
      · exact ⟨_, rfl⟩
  | timeout => exact ⟨_, rfl⟩
  | connectionId => exact ⟨_, rfl⟩
  | streamParent => exact absurd early (Nat.lt_irrefl 3)
  | isolation => exact absurd early (Nat.lt_asymm (Nat.lt_succ_self 3))
  | other raw => exact ⟨_, rfl⟩

/-- So the parent of a stream is always decoded. -/
theorem streamParent_processed (o : ServerOptions) (s : ServerNegotiation) {m : FeatureMap}
    (sorted : OrdMap.Sorted FeatureMap.lt m) {data : Sstring}
    (member : (ProtocolFeature.streamParent, data) ∈ m) :
    (ProtocolFeature.streamParent, data) ∈ processed (ServerNegotiation.entry o) s m := by
  induction m generalizing s with
  | nil => cases member
  | cons e m ih =>
      obtain ⟨first, rest⟩ := List.pairwise_cons.mp sorted
      rw [processed]
      rcases List.mem_cons.mp member with rfl | member
      · exact List.mem_cons_self
      · have early : e.1.code < 3 := of_decide_eq_true (first _ member)
        obtain ⟨s', ok⟩ := serverEntry_ok o s early
        rw [ok]
        exact .tail _ (ih s' rest member)

theorem server_decodedIds_iff (o : ServerOptions) {m : FeatureMap}
    (sorted : OrdMap.Sorted FeatureMap.lt m) {data : Sstring} :
    data ∈ o.decodedIds m ↔
      o.streamingDomain = true ∧ (ProtocolFeature.streamParent, data) ∈ m := by
  unfold ServerOptions.decodedIds
  rw [List.mem_filterMap]
  constructor
  · rintro ⟨⟨feature, data'⟩, member, decoded⟩
    split at decoded
    · rename_i both
      cases decoded
      obtain ⟨rfl, domain⟩ := both
      exact ⟨domain, mem_of_processed member⟩
    · cases decoded
  · rintro ⟨domain, member⟩
    exact ⟨_, streamParent_processed o _ sorted member, if_pos ⟨rfl, domain⟩⟩

/-- Only the lookup of a parent is an error that waits. -/
theorem serverEntry_failed {o : ServerOptions} {s s' : ServerNegotiation}
    {e : ProtocolFeature × Sstring} (ok : ServerNegotiation.entry o s e = .ok s')
    (before : s.failed ≠ some .connectionIdOverread) :
    s'.failed ≠ some .connectionIdOverread := by
  obtain ⟨feature, data⟩ := e
  unfold ServerNegotiation.entry at ok
  cases feature <;> dsimp only at ok
  case compress =>
    split at ok
    · split at ok <;> (cases ok; exact before)
    · cases ok
      exact before
  case streamParent =>
    split at ok
    · split at ok
      · cases ok
        dsimp only
        split <;> simp
      · cases ok
    · cases ok
      simp
  case isolation =>
    split at ok
    · cases ok
      exact before
    · cases ok
  all_goals
    cases ok
    exact before

theorem serverLoop_failed {o : ServerOptions} {s s' : ServerNegotiation} {m : FeatureMap}
    (ok : m.foldlM (ServerNegotiation.entry o) s = .ok s')
    (before : s.failed ≠ some .connectionIdOverread) :
    s'.failed ≠ some .connectionIdOverread := by
  induction m generalizing s with
  | nil =>
      cases ok
      exact before
  | cons e m ih =>
      obtain ⟨s₁, first, rest⟩ := ok_of_bind ok
      exact ih rest (serverEntry_failed first before)

/-- An id is read from a feature that is too short for it. -/
theorem serverEntry_overread {o : ServerOptions} {s : ServerNegotiation}
    {e : ProtocolFeature × Sstring}
    (overread : ServerNegotiation.entry o s e = .error .connectionIdOverread) :
    e.1 = .streamParent ∧ o.streamingDomain = true ∧ ¬IdInside e.2 := by
  obtain ⟨feature, data⟩ := e
  unfold ServerNegotiation.entry at overread
  cases feature <;> dsimp only at overread
  case compress =>
    split at overread
    · split at overread <;> cases overread
    · cases overread
  case streamParent =>
    split at overread
    · rename_i domain
      refine ⟨rfl, domain, fun inside => ?_⟩
      obtain ⟨id, decoded⟩ := deserialize_inside inside
      rw [decoded] at overread
      cases overread
    · cases overread
  case isolation => split at overread <;> cases overread
  all_goals cases overread

theorem serverNegotiate_inside {o : ServerOptions} {id : ConnectionId} {m : FeatureMap}
    (inside : ∀ data ∈ o.decodedIds m, IdInside data) :
    o.negotiate id m ≠ .error .connectionIdOverread := by
  intro overread
  unfold ServerOptions.negotiate at overread
  cases loop : m.foldlM (ServerNegotiation.entry o) ⟨Link.initial, [], false, none⟩ with
  | error e =>
      rw [loop] at overread
      cases overread
      obtain ⟨e', member, s', bad⟩ := processed_error loop
      obtain ⟨feature, domain, outside⟩ := serverEntry_overread bad
      refine outside (inside e'.2 ?_)
      exact List.mem_filterMap.mpr ⟨e', member, if_pos ⟨feature, domain⟩⟩
  | ok s' =>
      rw [loop] at overread
      have fine := serverLoop_failed loop (by simp)
      simp only [bind, Except.bind] at overread
      split at overread
      · rename_i e failed
        cases overread
        exact fine failed
      · cases overread

/-! ### The client -/

/-- The client has no compressor for this answer. -/
def ClientOptions.refuses (o : ClientOptions) (data : Sstring) : Bool :=
  match o.compressorFactory with
  | some factory => (factory.negotiate data false).isNone
  | none => true

/-- A client that cannot compress has no compressor. -/
def ClientOptions.Fits (o : ClientOptions) (c : ClientNegotiation) : Prop :=
  o.compressorFactory = none → c.link.compressor = none

/-- Up to CONNECTION_ID only a compressor that is refused makes a client stop. -/
theorem clientEntry_ok {o : ClientOptions} {c : ClientNegotiation} (fits : o.Fits c)
    {e : ProtocolFeature × Sstring} (early : e.1.code < 2)
    (accepted : e.1 = .compress → o.refuses e.2 = false) :
    ∃ c', ClientNegotiation.entry o c e = .ok c' ∧ o.Fits c' := by
  obtain ⟨feature, data⟩ := e
  cases feature with
  | compress =>
      have accepted := accepted rfl
      unfold ClientOptions.refuses at accepted
      unfold ClientNegotiation.entry
      dsimp only at accepted ⊢
      cases factory : o.compressorFactory with
      | none => rw [factory] at accepted; cases accepted
      | some f =>
          rw [factory] at accepted
          dsimp only at accepted ⊢
          cases picked : f.negotiate data false with
          | none => rw [picked] at accepted; cases accepted
          | some compressor => exact ⟨_, rfl, fun none_ => by rw [factory] at none_; cases none_⟩
  | timeout => exact ⟨_, rfl, fits⟩
  | connectionId => exact absurd early (Nat.lt_irrefl 2)
  | streamParent => exact absurd early (Nat.lt_asymm (Nat.lt_succ_self 2))
  | isolation => exact absurd early (Nat.not_lt.mpr (Nat.le_add_left 2 2))
  | other raw => exact ⟨_, rfl, fits⟩

/-- One that is refused does. -/
theorem clientEntry_refused {o : ClientOptions} {c : ClientNegotiation} (fits : o.Fits c)
    {data : Sstring} (refused : o.refuses data = true) :
    ClientNegotiation.entry o c (.compress, data) = .error (.unsupportedCompression data) := by
  unfold ClientOptions.refuses at refused
  unfold ClientNegotiation.entry
  dsimp only
  cases factory : o.compressorFactory with
  | none =>
      dsimp only
      rw [fits factory]
  | some f =>
      rw [factory] at refused
      dsimp only at refused ⊢
      rw [Option.isNone_iff_eq_none.mp refused]

/-- So a connection id is decoded, unless a compressor is refused before. -/
theorem connectionId_processed_iff {o : ClientOptions} {c : ClientNegotiation} (fits : o.Fits c)
    {m : FeatureMap} (sorted : OrdMap.Sorted FeatureMap.lt m) {data : Sstring} :
    (ProtocolFeature.connectionId, data) ∈ processed (ClientNegotiation.entry o) c m ↔
      (ProtocolFeature.connectionId, data) ∈ m ∧
        ∀ data', (ProtocolFeature.compress, data') ∈ m → o.refuses data' = false := by
  induction m generalizing c with
  | nil => simp [processed]
  | cons e m ih =>
      obtain ⟨first, rest⟩ := List.pairwise_cons.mp sorted
      have later : ∀ data', (ProtocolFeature.compress, data') ∉ m := by
        intro data' member
        have bad : e.1.code < 0 := of_decide_eq_true (first _ member)
        exact absurd bad (Nat.not_lt_zero _)
      have only : (∀ data', (ProtocolFeature.compress, data') ∈ e :: m → o.refuses data' = false) ↔
          (e.1 = .compress → o.refuses e.2 = false) := by
        constructor
        · intro all isCompress
          exact all e.2 (by rw [← isCompress]; exact List.mem_cons_self)
        · intro head data' member
          rcases List.mem_cons.mp member with rfl | member
          · exact head rfl
          · exact absurd member (later data')
      rw [only, processed, List.mem_cons, List.mem_cons]
      by_cases here : (ProtocolFeature.connectionId, data) = e
      · subst here
        simp
      by_cases refused : e.1 = .compress ∧ o.refuses e.2 = true
      · obtain ⟨isCompress, refused⟩ := refused
        have stops := clientEntry_refused fits refused
        have same : e = (.compress, e.2) := Prod.ext isCompress rfl
        rw [same, stops]
        simp [refused]
      by_cases early : e.1.code < 2
      · have accepted : e.1 = .compress → o.refuses e.2 = false := by
          intro isCompress
          exact Bool.eq_false_iff.mpr fun bad => refused ⟨isCompress, bad⟩
        obtain ⟨c', ok, fits'⟩ := clientEntry_ok fits early accepted
        have onward := ih fits' rest
        rw [ok, onward]
        simp only [here, false_or]
        exact ⟨fun both => ⟨both.1, accepted⟩, fun both =>
          ⟨both.1, fun data' member => absurd member (later data')⟩⟩
      · -- behind CONNECTION_ID it does not come up any more
        have absent : (ProtocolFeature.connectionId, data) ∉ m := by
          intro member
          exact early (of_decide_eq_true (first _ member))
        simp only [here, absent, false_or, false_and, iff_false]
        intro member
        split at member
        · exact absent (mem_of_processed member)
        · cases member

theorem client_decodedIds_iff (o : ClientOptions) {m : FeatureMap}
    (sorted : OrdMap.Sorted FeatureMap.lt m) {data : Sstring} :
    data ∈ o.decodedIds m ↔ (ProtocolFeature.connectionId, data) ∈ m ∧
      ∀ data', (ProtocolFeature.compress, data') ∈ m → o.refuses data' = false := by
  have initial : o.Fits ⟨Link.initial, 0xffff#64⟩ := fun _ => rfl
  rw [← connectionId_processed_iff initial sorted]
  unfold ClientOptions.decodedIds
  rw [List.mem_filterMap]
  constructor
  · rintro ⟨⟨feature, data'⟩, member, decoded⟩
    split at decoded
    · rename_i isId
      cases decoded
      obtain rfl : feature = .connectionId := isId
      exact member
    · cases decoded
  · exact fun member => ⟨_, member, if_pos rfl⟩

theorem clientEntry_overread {o : ClientOptions} {c : ClientNegotiation}
    {e : ProtocolFeature × Sstring}
    (overread : ClientNegotiation.entry o c e = .error .connectionIdOverread) :
    e.1 = .connectionId ∧ ¬IdInside e.2 := by
  obtain ⟨feature, data⟩ := e
  unfold ClientNegotiation.entry at overread
  cases feature <;> dsimp only at overread
  case compress =>
    split at overread <;> cases overread
  case connectionId =>
    refine ⟨rfl, fun inside => ?_⟩
    obtain ⟨id, decoded⟩ := deserialize_inside inside
    rw [decoded] at overread
    cases overread
  all_goals cases overread

theorem clientNegotiate_inside {o : ClientOptions} {m : FeatureMap}
    (inside : ∀ data ∈ o.decodedIds m, IdInside data) :
    o.negotiate m ≠ .error .connectionIdOverread := by
  intro overread
  unfold ClientOptions.negotiate at overread
  cases loop : m.foldlM (ClientNegotiation.entry o) ⟨Link.initial, 0xffff#64⟩ with
  | error e =>
      rw [loop] at overread
      cases overread
      obtain ⟨e', member, c', bad⟩ := processed_error loop
      obtain ⟨feature, outside⟩ := clientEntry_overread bad
      refine outside (inside e'.2 ?_)
      exact List.mem_filterMap.mpr ⟨e', member, if_pos feature⟩
  | ok c' =>
      rw [loop] at overread
      cases overread

/-! ## The codec -/

section

variable {σ : Type} [InputStream Byte σ]

theorem sorted_records (records : List (BitVec 32 × Sstring)) :
    OrdMap.Sorted FeatureMap.lt (FeatureMap.takeRecords [] records) :=
  takeRecords_sorted List.Pairwise.nil records

theorem server_readsFrame_iff (o : ServerOptions) (id : ConnectionId) (s : σ) :
    o.ReadsFrame id s ↔ (o.streamingDomain = true →
      ∀ records, BeginsWithFrame (InputStream.content s) records →
        ∀ data, (ProtocolFeature.streamParent, data) ∈ FeatureMap.takeRecords [] records →
          IdInside data) := by
  constructor
  · intro reads domain records frame data member
    have received := receive_ok_iff.mpr ⟨records, frame, rfl⟩
    refine (reads.2 _ received).2 data ?_
    exact (server_decodedIds_iff o (sorted_records records)).mpr ⟨domain, member⟩
  · intro long
    refine ⟨receive_inside s, fun requested received => ?_⟩
    obtain ⟨records, frame, rfl⟩ := receive_ok_iff.mp received
    have inside : ∀ data ∈ o.decodedIds (FeatureMap.takeRecords [] records), IdInside data := by
      intro data decoded
      obtain ⟨domain, member⟩ := (server_decodedIds_iff o (sorted_records records)).mp decoded
      exact long domain records frame data member
    exact ⟨serverNegotiate_inside inside, inside⟩

theorem client_readsFrame_iff (o : ClientOptions) (s : σ) :
    o.ReadsFrame s ↔ ∀ records, BeginsWithFrame (InputStream.content s) records →
      ∀ data, (ProtocolFeature.connectionId, data) ∈ FeatureMap.takeRecords [] records →
        (∀ data', (ProtocolFeature.compress, data') ∈ FeatureMap.takeRecords [] records →
          o.refuses data' = false) → IdInside data := by
  constructor
  · intro reads records frame data member accepted
    have received := receive_ok_iff.mpr ⟨records, frame, rfl⟩
    refine (reads.2 _ received).2 data ?_
    exact (client_decodedIds_iff o (sorted_records records)).mpr ⟨member, accepted⟩
  · intro long
    refine ⟨receive_inside s, fun provided received => ?_⟩
    obtain ⟨records, frame, rfl⟩ := receive_ok_iff.mp received
    have inside : ∀ data ∈ o.decodedIds (FeatureMap.takeRecords [] records), IdInside data := by
      intro data decoded
      obtain ⟨member, accepted⟩ := (client_decodedIds_iff o (sorted_records records)).mp decoded
      exact long records frame data member accepted
    exact ⟨clientNegotiate_inside inside, inside⟩

/-- The codec: what is sent is received, however it is cut; and what a peer sends
is handled inside its frame exactly when each connection id that is decoded has
its eight bytes. -/
theorem negotiation_codec :
    (∀ (m : FeatureMap), m.Valid → m.encodedSize < 2 ^ 32 →
      ∃ bytes, sendNegotiationFrame m = some bytes ∧
        ∀ (s : σ) (tail : List Byte), InputStream.content s = bytes ++ tail →
          (receiveNegotiationFrame s).1 = .ok m ∧
            InputStream.content (receiveNegotiationFrame s).2 = tail) ∧
    (∀ (o : ServerOptions) (id : ConnectionId) (s : σ),
      o.ReadsFrame id s ↔ (o.streamingDomain = true →
        ∀ records, BeginsWithFrame (InputStream.content s) records →
          ∀ data, (ProtocolFeature.streamParent, data) ∈ FeatureMap.takeRecords [] records →
            IdInside data)) ∧
    (∀ (o : ClientOptions) (s : σ),
      o.ReadsFrame s ↔ ∀ records, BeginsWithFrame (InputStream.content s) records →
        ∀ data, (ProtocolFeature.connectionId, data) ∈ FeatureMap.takeRecords [] records →
          (∀ data', (ProtocolFeature.compress, data') ∈ FeatureMap.takeRecords [] records →
            o.refuses data' = false) → IdInside data) := by
  refine ⟨fun m valid fits => ?_, server_readsFrame_iff, client_readsFrame_iff⟩
  exact ⟨_, sendNegotiationFrame_eq fits, fun s tail content =>
    receive_send valid fits (sendNegotiationFrame_eq fits) content⟩

end

/-- A request for timeouts, in two reads. -/
theorem negotiation_codec_timeout :
    (receiveNegotiationFrame (Chunked.mk [rpcMagic ++ [8, 0, 0], [0, 1, 0, 0, 0, 0, 0, 0, 0]] false)).1
      = .ok [(.timeout, [])] := by
  have valid : FeatureMap.Valid [(.timeout, [])] :=
    ⟨List.pairwise_singleton .., by simp; rfl⟩
  obtain ⟨bytes, sent, received⟩ :=
    (@negotiation_codec (Chunked Byte) _).1 [(.timeout, [])] valid (by decide)
  have bytes_eq : bytes = rpcMagic ++ [8, 0, 0, 0, 1, 0, 0, 0, 0, 0, 0, 0] :=
    (Option.some.inj (sent.symm.trans (by decide)))
  exact (received _ [] (by rw [bytes_eq]; rfl)).1

/-- A parent connection without an id, sent to a server that streams. -/
theorem streamParent_overread :
    ¬ServerOptions.ReadsFrame ⟨none, true, fun _ => true, fun _ => true⟩ 7#64
      (Chunked.mk [rpcMagic ++ [8, 0, 0, 0, 3, 0, 0, 0, 0, 0, 0, 0]] false) := by
  rw [server_readsFrame_iff]
  intro long
  have frame : BeginsWithFrame
      (InputStream.content (Chunked.mk [rpcMagic ++ [8, 0, 0, 0, 3, 0, 0, 0, 0, 0, 0, 0]] false))
      [(3, [])] := ⟨by decide, [], rfl⟩
  have inside : IdInside [] := long rfl _ frame [] List.mem_cons_self
  exact absurd inside (Nat.not_succ_le_zero 7)

end ActorNet.Rpc
