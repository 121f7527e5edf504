import QuantumNode.Message.Return
import QuantumNode.Proofs.Subroutine.RoundTrip

/-
  Messages between a host and its node, as bytes and read back. A field keeps the values of its
  width. Entries of a returned array are marked as defined or not, but the marks are not read.
-/

open List

namespace QuantumNode
open Bytes

namespace Layout
variable {fields : List Field} {values : List Int}

def Field.Holds (f : Field) (v : Int) : Prop :=
  if f.signed then -(Nat.pow 256 f.width : Int) ≤ 2 * v ∧ 2 * v < Nat.pow 256 f.width
  else 0 ≤ v ∧ v < Nat.pow 256 f.width

theorem Field.wrap_eq_iff (f : Field) (v : Int) : f.wrap v = v ↔ f.Holds v := by
  unfold Field.wrap Holds
  split
  · exact toInt_ofInt_eq_iff f.width v
  · exact toNat_ofInt_eq_iff f.width v

section
variable (hLength : values.length = fields.length)
include hLength
theorem length_encodeFrom (place : Nat) :
    place + (encodeFrom place fields values).length = stop place fields := by
  induction fields generalizing place values with
  | nil => cases values <;> rfl
  | cons f fields ih =>
    cases values with
    | nil => cases hLength
    | cons v values =>
      simp only [encodeFrom, length_append, length_zeros, length_ofInt, stop]
      rw [← ih (Nat.succ.inj hLength)]
      omega

theorem decodeFrom_encodeFrom (front rest : Bytes) (hPlace : front.length = place) :
    decodeFrom place fields (front ++ (encodeFrom place fields values ++ rest)) =
      zipWith Field.wrap fields values := by
  induction fields generalizing place values front with
  | nil => rfl
  | cons f fields ih =>
    cases values with
    | nil => cases hLength
    | cons v values =>
      have hStart : (front ++ zeros (gap place f.width)).length = place + gap place f.width := by
        rw [length_append, length_zeros, hPlace]
      have hNext := ih (Nat.succ.inj hLength) (front ++ zeros (gap place f.width) ++ ofInt f.width v)
        (by rw [length_append, hStart, length_ofInt])
      simp only [append_assoc] at hNext
      simp only [decodeFrom, encodeFrom, append_assoc, zipWith_cons_cons, hNext]
      rw [← append_assoc, drop_left' hStart, take_left' (length_ofInt _ _)]
      rfl

theorem length_encode : (encode fields values).length = size fields := by
  have hStop := length_encodeFrom hLength 0
  simp only [encode, size, length_append, length_zeros]
  rw [← hStop, Nat.zero_add]

theorem decodeFrom_encode (rest : Bytes) :
    decodeFrom 0 fields (encode fields values ++ rest) = zipWith Field.wrap fields values := by
  rw [encode, append_assoc]
  exact decodeFrom_encodeFrom hLength [] _ rfl

theorem decode?_encode (rest : Bytes) :
    decode? fields (encode fields values ++ rest) = some (zipWith Field.wrap fields values) := by
  have hSize := length_encode hLength
  rw [decode?, if_neg (by rw [length_append]; omega), decodeFrom_encode hLength]

end

end Layout

open Layout

namespace HostMessage

-- The fields behind the type of a message are read, whatever is made of them.
theorem decode_record {α : Type} (read : Bytes → Checked α) {make : List Int → Checked α}
    (code : Nat) (fields : List Field) (values : List Int) (hLength : values.length = fields.length)
    (hRead : ∀ rest, read (UInt8.ofNat ((code % 256 : Int).toNat % 256) :: rest) =
        decodeFields fields (UInt8.ofNat ((code % 256 : Int).toNat % 256) :: rest) >>= make) :
    read (Layout.encode (typeField :: fields) (code :: values)) =
      make (zipWith Field.wrap fields values) := by
  have hTotal : ((code : Int) :: values).length = (typeField :: fields).length :=
    congrArg Nat.succ hLength
  have hFields : decodeFields fields (Layout.encode (typeField :: fields) (code :: values)) =
      .ok (zipWith Field.wrap fields values) := by
    rw [decodeFields, ← append_nil (Layout.encode _ _), decode?_encode hTotal]
    rfl
  exact (hRead _).trans (congrArg (· >>= make) hFields)

theorem decode_encode (m : HostMessage) : decode m.encode = .ok m.wrap := by
  cases m with
  | subroutine payload | stopApp app => rfl
  | initApp app maxQubits =>
    exact decode_record decode 0 initFields [app, maxQubits] rfl fun _ => rfl
  | openSocket app id remote remoteId fidelity =>
    exact decode_record decode 1 openFields [app, id, remote, remoteId, fidelity] rfl fun _ => rfl
  | signal code => exact decode_record decode 4 signalFields [code] rfl fun _ => rfl

-- Each field of a message has room for its value.
def InRange (m : HostMessage) : Prop := ∀ p ∈ m.fields, p.1.Holds p.2

theorem wrap_eq {m : HostMessage} (hRange : m.InRange) : m.wrap = m := by
  have hKept : ∀ p ∈ m.fields, p.1.wrap p.2 = p.2 := fun p hp =>
    (p.1.wrap_eq_iff p.2).mpr (hRange p hp)
  cases m <;>
    simp_all [fields, initFields, openFields, stopFields, signalFields, wrap, Field.wrap]

-- A message is read back as it was, so messages that differ in their class or in a field have
-- different bytes.
theorem host_read_back
    (m : HostMessage)
    (hRange : m.InRange) :
    decode m.encode = .ok m ∧
      ∀ other : HostMessage, other.InRange → other ≠ m → other.encode ≠ m.encode := by
  have hBack : ∀ {m : HostMessage}, m.InRange → decode m.encode = .ok m := fun hRange =>
    (decode_encode _).trans (congrArg Except.ok (wrap_eq hRange))
  refine ⟨hBack hRange, fun other hOther hDiffers hBytes => hDiffers ?_⟩
  have hSame := (hBack hOther).symm.trans ((congrArg decode hBytes).trans (hBack hRange))
  exact Except.ok.inj hSame

theorem host_read_back_extremes :
    let m := openSocket 4294967295 (-2147483648) 2147483647 (-1) 255
    m.InRange ∧ decode m.encode = .ok m := by
  intro m
  have hRange : m.InRange := by simp [m, InRange, fields, openFields, Field.Holds]
  exact ⟨hRange, (host_read_back m hRange).1⟩

end HostMessage

---- Messages of the node

namespace ReturnMessage
open Slot
variable {vs : List (Option Int)}

-- Numbers of a message are in the ranges of their fields, and it has as many as it can say.
def InRange : ReturnMessage → Prop
  | array a vs => WordRange a ∧ vs.length ≤ 2147483647 ∧ ∀ v ∈ vs, ∀ n ∈ v, WordRange n
  | register r v => r.InRange ∧ WordRange v
  | m => ∀ p ∈ m.fields, p.1.Holds p.2

-- What a host makes of a message: undefined entries are zero.
def asRead : ReturnMessage → ReturnMessage
  | array a vs => array a (vs.map fun v => some (v.getD 0))
  | m => m

theorem wrap_word {name : String} {v : Int} (hRange : WordRange v) :
    Field.wrap ⟨name, 4, true⟩ v = v := by
  rw [Field.wrap_eq_iff]
  unfold WordRange at hRange
  simp only [Field.Holds, if_true]
  have hPow : (Nat.pow 256 4 : Int) = 4294967296 := rfl
  omega

theorem decodeEntries_encodeEntry (hRange : ∀ v ∈ vs, ∀ n ∈ v, WordRange n) :
    decodeEntries vs.length (vs.flatMap encodeEntry) = vs.map fun v => some (v.getD 0) := by
  induction vs with
  | nil => rfl
  | cons v rest ih =>
    have hFirst : encodeEntry v = Layout.encode entryFields [if v.isSome then 1 else 0, v.getD 0] := by
      cases v <;> rfl
    have hValue : WordRange (v.getD 0) := by
      cases v with
      | none => exact ⟨by decide, by decide⟩
      | some n => exact hRange _ mem_cons_self n rfl
    rw [flatMap_cons, length_cons, decodeEntries, hFirst, decodeFrom_encode rfl,
      drop_left' (length_encode rfl), ih fun v hv => hRange v (mem_cons_of_mem _ hv)]
    exact congrArg (· :: _) (congrArg some (wrap_word hValue))

theorem length_flatMap_encodeEntry :
    (vs.flatMap encodeEntry).length = vs.length * Layout.size entryFields := by
  induction vs with
  | nil => rfl
  | cons v rest ih =>
    have hFirst : (encodeEntry v).length = Layout.size entryFields := by
      cases v <;> exact length_encode rfl
    rw [flatMap_cons, length_append, length_cons, hFirst, ih, Nat.succ_mul, Nat.add_comm]

theorem decode_encode {m : ReturnMessage} (hRange : m.InRange) : decode m.encode = .ok m.asRead := by
  cases m with
  | done id =>
    have hKept := (Field.wrap_eq_iff _ _).mpr (hRange _ mem_cons_self)
    exact (HostMessage.decode_record decode 0 doneFields [id] rfl fun _ => rfl).trans
      (congrArg (Except.ok ∘ done) hKept)
  | error code =>
    have hKept := (Field.wrap_eq_iff _ _).mpr (hRange _ mem_cons_self)
    exact (HostMessage.decode_record decode 1 errorFields [code] rfl fun _ => rfl).trans
      (congrArg (Except.ok ∘ error) hKept)
  | register r v =>
    refine (HostMessage.decode_record decode 3 registerFields [r.encode.toNat, v] rfl
      fun _ => rfl).trans ?_
    have hByte : Field.wrap ⟨"register", 1, false⟩ r.encode.toNat = r.encode.toNat :=
      (Field.wrap_eq_iff _ _).mpr ⟨by omega, by exact_mod_cast r.encode.toNat_lt⟩
    change Except.ok (register (Reg.decode (UInt8.ofNat (Field.wrap ⟨"register", 1, false⟩ _).toNat))
      (Field.wrap ⟨"value", 4, true⟩ v)) = _
    rw [hByte, wrap_word hRange.2, Int.toNat_natCast, UInt8.ofNat_toNat,
      (Reg.decode_encode_eq_iff r).mpr hRange.1]
    rfl
  | array a vs =>
    change decodeArray (Layout.encode arrayFields [a, vs.length] ++ vs.flatMap encodeEntry) = _
    rcases hRange with ⟨hAddress, _, hValues⟩
    have hTwo : [a, (vs.length : Int)].length = arrayFields.length := rfl
    have hHeader : zipWith Field.wrap arrayFields [a, vs.length] = [a, (vs.length : Int)] :=
      congrArg₂ (fun a n => [a, n]) (wrap_word hAddress) (wrap_word ⟨by omega, by omega⟩)
    simp only [decodeArray, decode?_encode hTwo, hHeader, drop_left' (length_encode hTwo),
      Int.toNat_natCast, length_flatMap_encodeEntry]
    rw [if_neg (by omega), decodeEntries_encodeEntry hValues]
    rfl

-- A message is read back with its undefined entries as zero, so it is read back as it was exactly
-- if it has none.
theorem returned_read_back_iff
    (m : ReturnMessage)
    (hRange : m.InRange) :
    decode m.encode = .ok m.asRead ∧
      (m.asRead = m ↔ ∀ a vs, m = array a vs → none ∉ vs) := by
  refine ⟨decode_encode hRange, ?_⟩
  cases m with
  | array a vs =>
    have hEach : (vs.map fun v => some (v.getD 0)) = vs ↔ none ∉ vs := by
      clear hRange
      induction vs with
      | nil => simp
      | cons v rest ih => cases v <;> simp [ih]
    simpa [asRead] using hEach
  | _ => simp [asRead]

theorem returned_read_back_iff_partly :
    let m := array (-2147483648) [some 7, none, some (-1)]
    decode m.encode = .ok (array (-2147483648) [some 7, some 0, some (-1)]) ∧ m.asRead ≠ m := by
  intro m
  have hBack := returned_read_back_iff m (by simp [m, InRange, WordRange])
  exact ⟨hBack.1, fun hSame => hBack.2.mp hSame _ _ rfl (by simp)⟩

end ReturnMessage

end QuantumNode
