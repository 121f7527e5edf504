import QuantumNode.Document.Json
import QuantumNode.Subroutine

/-
  The layout of records in memory, and the messages between a host and its node. Each field of a
  record starts at a multiple of its width, and the whole record is filled up to a multiple of the
  largest width.
-/

namespace QuantumNode.Layout
open Bytes

structure Field where
  name : String
  width : Nat
  signed : Bool
  deriving DecidableEq

def Field.wrap (f : Field) (v : Int) : Int :=
  let bs := ofInt f.width v
  if f.signed then toInt bs else toNat bs

def gap (place width : Nat) : Nat :=
  (width - place % width) % width

variable (fields : List Field)

def alignment : Nat :=
  fields.foldl (fun n f => max n f.width) 1

def stop : Nat → List Field → Nat
  | place, [] => place
  | place, f :: rest => stop (place + gap place f.width + f.width) rest

def size : Nat :=
  let s := stop 0 fields
  s + gap s (alignment fields)

def encodeFrom : Nat → List Field → List Int → Bytes
  | place, f :: fields, v :: values =>
    zeros (gap place f.width) ++ ofInt f.width v
      ++ encodeFrom (place + gap place f.width + f.width) fields values
  | _, _, _ => []

def encode (values : List Int) : Bytes :=
  let bs := encodeFrom 0 fields values
  bs ++ zeros (gap bs.length (alignment fields))

def decodeFrom : Nat → List Field → Bytes → List Int
  | _, [], _ => []
  | place, f :: fields, bs =>
    let start := place + gap place f.width
    let raw := (bs.drop start).take f.width
    (if f.signed then toInt raw else toNat raw) :: decodeFrom (start + f.width) fields bs

def decode? (bs : Bytes) : Option (List Int) :=
  if bs.length < size fields then none else some (decodeFrom 0 fields bs)

end QuantumNode.Layout

namespace QuantumNode

-- Messages to a node: register an application, open a socket for entanglement, run a subroutine,
-- stop an application, and signals.
inductive HostMessage
  | initApp (appId maxQubits : Int)
  | openSocket (appId socketId remoteNode remoteSocket minFidelity : Int)
  | subroutine (payload : Bytes)
  | stopApp (appId : Int)
  | signal (code : Int)
  deriving DecidableEq

namespace HostMessage
open Layout

def typeCode : HostMessage → Nat
  | initApp _ _ => 0
  | openSocket _ _ _ _ _ => 1
  | subroutine _ => 2
  | stopApp _ => 3
  | signal _ => 4

def title : HostMessage → String
  | initApp _ _ => "InitNewAppMessage"
  | openSocket _ _ _ _ _ => "OpenEPRSocketMessage"
  | subroutine _ => "SubroutineMessage"
  | stopApp _ => "StopAppMessage"
  | signal _ => "SignalMessage"

def typeField : Field := ⟨"type", 1, false⟩

def initFields : List Field := [⟨"app_id", 4, false⟩, ⟨"max_qubits", 1, false⟩]

def openFields : List Field :=
  [⟨"app_id", 4, false⟩, ⟨"epr_socket_id", 4, true⟩, ⟨"remote_node_id", 4, true⟩,
   ⟨"remote_epr_socket_id", 4, true⟩, ⟨"min_fidelity", 1, false⟩]

def stopFields : List Field := [⟨"app_id", 4, false⟩]

def signalFields : List Field := [⟨"signal", 1, false⟩]

def fields : HostMessage → List (Field × Int)
  | initApp a q => initFields.zip [a, q]
  | openSocket a s r t m => openFields.zip [a, s, r, t, m]
  | subroutine _ => []
  | stopApp a => stopFields.zip [a]
  | signal c => signalFields.zip [c]

def wrap : HostMessage → HostMessage
  | initApp a q => initApp (Field.wrap ⟨"", 4, false⟩ a) (Field.wrap ⟨"", 1, false⟩ q)
  | openSocket a s r t m =>
    openSocket (Field.wrap ⟨"", 4, false⟩ a) (Field.wrap ⟨"", 4, true⟩ s)
      (Field.wrap ⟨"", 4, true⟩ r) (Field.wrap ⟨"", 4, true⟩ t) (Field.wrap ⟨"", 1, false⟩ m)
  | subroutine p => subroutine p
  | stopApp a => stopApp (Field.wrap ⟨"", 4, false⟩ a)
  | signal c => signal (Field.wrap ⟨"", 1, false⟩ c)

def encode (m : HostMessage) : Bytes :=
  match m with
  | subroutine payload => Bytes.ofNat 1 m.typeCode ++ payload
  | _ =>
    Layout.encode (typeField :: m.fields.map Prod.fst) (m.typeCode :: m.fields.map Prod.snd)

def decodeFields (fields : List Field) (bs : Bytes) : Checked (List Int) :=
  match Layout.decode? (typeField :: fields) bs with
  | some (_ :: values) => .ok values
  | _ => .error .malformed

def decode (bs : Bytes) : Checked HostMessage := do
  match bs with
  | [] => throw .malformed
  | b :: payload =>
    match b.toNat with
    | 0 => match ← decodeFields initFields bs with
      | [a, q] => return initApp a q
      | _ => throw .malformed
    | 1 => match ← decodeFields openFields bs with
      | [a, s, r, t, m] => return openSocket a s r t m
      | _ => throw .malformed
    | 2 => return subroutine payload
    | 3 => match ← decodeFields stopFields bs with
      | [a] => return stopApp a
      | _ => throw .malformed
    | 4 => match ← decodeFields signalFields bs with
      | [c] => return signal c
      | _ => throw .malformed
    | _ => throw .malformed

def text (m : HostMessage) : String :=
  m.title ++ "(" ++ ", ".intercalate (m.fields.map fun (f, v) => s!"{f.name}={v}") ++ ")"

end HostMessage

open Layout

-- Messages to a host: a message is done, an error occurred, an array, and a register.
inductive ReturnMessage
  | done (messageId : Int)
  | error (code : Int)
  | array (address : Int) (values : List (Option Int))
  | register (reg : Reg) (value : Int)
  deriving DecidableEq

namespace ReturnMessage

def typeCode : ReturnMessage → Nat
  | done _ => 0
  | error _ => 1
  | array _ _ => 2
  | register _ _ => 3

def title : ReturnMessage → String
  | done _ => "MsgDoneMessage"
  | error _ => "ErrorMessage"
  | array _ _ => "ReturnArrayMessage"
  | register _ _ => "ReturnRegMessage"

def doneFields : List Field := [⟨"msg_id", 4, false⟩]

def errorFields : List Field := [⟨"err_code", 1, false⟩]

def registerFields : List Field := [⟨"register", 1, false⟩, ⟨"value", 4, true⟩]

def arrayFields : List Field := [⟨"address", 4, true⟩, ⟨"length", 4, true⟩]

def entryFields : List Field := [⟨"type", 1, false⟩, ⟨"value", 4, true⟩]

def errorOfCode (code : Int) : Checked ReturnMessage :=
  if 0 ≤ code ∧ code ≤ 2 then .ok (error code) else .error .malformed

def wrap : ReturnMessage → ReturnMessage
  | done m => done (Field.wrap ⟨"", 4, false⟩ m)
  | error c => error (Field.wrap ⟨"", 1, false⟩ c)
  | array a vs => array a vs
  | register r v => register (Reg.decode r.encode) (Field.wrap ⟨"", 4, true⟩ v)

def fields : ReturnMessage → List (Field × Int)
  | done m => doneFields.zip [m]
  | error c => errorFields.zip [c]
  | array _ _ => []
  | register _ _ => []

def encodeEntry : Option Int → Bytes
  | none => Layout.encode entryFields [0, 0]
  | some v => Layout.encode entryFields [1, v]

def encode (m : ReturnMessage) : Bytes :=
  match m with
  | array a vs =>
    Bytes.ofNat 1 m.typeCode ++ Layout.encode arrayFields [a, vs.length] ++ vs.flatMap encodeEntry
  | register r v =>
    Layout.encode (HostMessage.typeField :: registerFields) [m.typeCode, r.encode.toNat, v]
  | _ =>
    Layout.encode (HostMessage.typeField :: m.fields.map Prod.fst)
      (m.typeCode :: m.fields.map Prod.snd)

-- The values of entries; what marks an entry undefined is not read.
def decodeEntries : Nat → Bytes → List (Option Int)
  | 0, _ => []
  | n + 1, bs =>
    (Layout.decodeFrom 0 entryFields bs)[1]? :: decodeEntries n (bs.drop (Layout.size entryFields))

def decodeArray (bs : Bytes) : Checked ReturnMessage :=
  match Layout.decode? arrayFields bs with
  | some [address, length] =>
    let body := bs.drop (Layout.size arrayFields)
    if length < 0 ∨ body.length < length.toNat * Layout.size entryFields then .error .malformed
    else .ok (array address (decodeEntries length.toNat body))
  | _ => .error .malformed

def decode (bs : Bytes) : Checked ReturnMessage := do
  match bs with
  | [] => throw .malformed
  | b :: rest =>
    match b.toNat with
    | 0 => match ← HostMessage.decodeFields doneFields bs with
      | [m] => return done m
      | _ => throw .malformed
    | 1 => match ← HostMessage.decodeFields errorFields bs with
      | [c] => return error c
      | _ => throw .malformed
    | 2 => decodeArray rest
    | 3 => match ← HostMessage.decodeFields registerFields bs with
      | [r, v] => return register (Reg.decode (UInt8.ofNat r.toNat)) v
      | _ => throw .malformed
    | _ => throw .malformed

def valuesText (values : List (Option Int)) : String :=
  "[" ++ ", ".intercalate (values.map fun
    | some v => toString v
    | none => "None") ++ "]"

def text (m : ReturnMessage) : String :=
  match m with
  | array a vs =>
    let shown := valuesText vs
    m.title ++ s!"(address={a}, values={shown})"
  | _ => m.title ++ "(" ++ ", ".intercalate (m.fields.map fun (f, v) => s!"{f.name}={v}") ++ ")"

end ReturnMessage

structure MessageHeader where
  id : Int
  length : Int
  deriving DecidableEq

namespace MessageHeader

def fields : List Field := [⟨"id", 4, false⟩, ⟨"length", 4, false⟩]

variable (h : MessageHeader)

def wrap : MessageHeader :=
  ⟨Field.wrap ⟨"", 4, false⟩ h.id, Field.wrap ⟨"", 4, false⟩ h.length⟩

def encode : Bytes :=
  Layout.encode fields [h.id, h.length]

def text : String :=
  s!"MessageHeader(id={h.id}, length={h.length})"

end MessageHeader

end QuantumNode
