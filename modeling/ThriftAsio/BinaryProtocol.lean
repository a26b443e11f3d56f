import ThriftAsio.Writers

/-! A library to run the processor with: `TBinaryProtocol`, not strict, over a memory buffer.
Fields that are skipped are scalars and strings here; one that is a struct or a container is
refused. Its writers are strict. Nothing is assumed of the library elsewhere, and this one only
serves concrete runs. -/

namespace ThriftAsio.BinaryProtocol

def readAll (n : Nat) : Reader Bytes := fun input =>
  if n ≤ input.length then .ok ⟨(input.take n, input.drop n), by simp⟩
  else .error (.library "No more data to read.")

def readByte : Reader Nat := do return bigEndian (← readAll 1)

def readI32 : Reader Int := do return Int.bmod (bigEndian (← readAll 4)) (2 ^ 32)

def readStringBody (size : Int) : Reader Bytes :=
  if size < 0 then Decoder.fail (.library "Negative size") else readAll size.toNat

def readString : Reader Bytes := do readStringBody (← readI32)

/-- The name, the type and the sequence number. A message without a version starts with the
size of its name. -/
def readMessageBegin : Reader (Bytes × Nat × Int) := do
  let sz ← readI32
  if 0 ≤ sz then
    let name ← readStringBody sz
    let type ← readByte
    return (name, type, ← readI32)
  else if sz / 2 ^ 16 = 0x8001 - 2 ^ 16 then
    let name ← readString
    return (name, (sz % 2 ^ 8).toNat, ← readI32)
  else Decoder.fail (.library "Bad version identifier")

def begin : Reader (Option (Bytes × Int)) := do
  let (fname, mtype, seqid) ← readMessageBegin
  return if mtype = 1 ∨ mtype = 4 then some (fname, seqid) else none

def ttype (code : UInt8) : TType :=
  if code = 0 then .stop
  else if code = 4 then .double
  else if code = 8 then .i32
  else if code = 11 then .string
  else if code = 12 then .struct
  else .other code

def readFieldBegin : Eater ThriftException UInt8 (TType × Int) := fun input =>
  match input with
  | [] => .error (.library "No more data to read.")
  | code :: rest =>
    if ttype code = .stop then .ok ⟨((.stop, 0), rest), by simp⟩
    else if 2 ≤ rest.length then
      .ok ⟨((ttype code, Int.bmod (bigEndian (rest.take 2)) (2 ^ 16)), rest.drop 2),
        Nat.lt_succ_of_le (List.drop_sublist 2 rest).length_le⟩
    else .error (.library "No more data to read.")

def skip : TType → Reader Unit
  | .stop => pure ()
  | .double => do let _ ← readAll 8
  | .i32 => do let _ ← readAll 4
  | .string => do let _ ← readString
  | .struct => Decoder.fail (.library "struct")
  | .other code => do
    if code = 2 ∨ code = 3 then let _ ← readAll 1
    else if code = 6 then let _ ← readAll 2
    else if code = 10 then let _ ← readAll 8
    else if code = 13 ∨ code = 14 ∨ code = 15 then Decoder.fail (.library "container")

def message (mtype : Nat) (name : Bytes) (seqid : Nat) (fields : Bytes) : Bytes :=
  toBigEndian 4 (0x80010000 + mtype) ++ encodeFrame name ++ toBigEndian 4 seqid ++ fields ++ [0]

def getVersion (seqid : Nat) : Bytes := message 4 (bytes "getVersion") seqid []

def stringField (id : Nat) (value : Bytes) : Bytes :=
  11 :: toBigEndian 2 id ++ encodeFrame value

def i32Field (id value : Nat) : Bytes := 8 :: toBigEndian 2 id ++ toBigEndian 4 value

def setUserName (name : Bytes) : Bytes := message 4 (bytes "setUserName") 0 (stringField 1 name)

def onGetVersion (version : Bytes) : Bytes :=
  message 4 (bytes "on_getVersion") 0 (stringField 1 version)

def i64Field (id value : Nat) : Bytes := 10 :: toBigEndian 2 id ++ toBigEndian 8 value

def onSetUserNameSucceeded (userId : Nat) : Bytes :=
  message 4 (bytes "on_setUserName_succeeded") 0 (i64Field 1 userId)

def shipFields (ship : Ship) : Bytes :=
  stringField 1 ship.userId ++ stringField 2 ship.nickName ++
    i32Field 3 ship.shipType.toNat ++ i32Field 4 ship.timeStamp.toNat ++ [0]

def postShip (channel : Bytes) (ship : Ship) : Bytes :=
  message 4 (bytes "postShip") 0
    (stringField 1 channel ++ 12 :: toBigEndian 2 2 ++ shipFields ship)

def messageTypeCode : TMessageType → Nat
  | .call => 1
  | .reply => 2
  | .exception => 3
  | .oneway => 4

def typeCode : TType → UInt8
  | .stop => 0
  | .double => 4
  | .i32 => 8
  | .string => 11
  | .struct => 12
  | .other code => code

def writeInt (k : Nat) (n : Int) : Bytes := toBigEndian k (n % (256 ^ k : Nat)).toNat

def writeString (str : Bytes) : Bytes := writeInt 4 str.length ++ str

def writer : OutputProtocol where
  writeMessageBegin name messageType seqid :=
    writeInt 4 (0x80010000 + messageTypeCode messageType) ++ writeString name ++
      writeInt 4 seqid
  writeMessageEnd := []
  writeStructBegin _ := []
  writeStructEnd := []
  writeFieldBegin _ fieldType fieldId := typeCode fieldType :: writeInt 2 fieldId
  writeFieldEnd := []
  writeFieldStop := [0]
  writeString := writeString
  writeBinary := writeString
  writeI32 := writeInt 4
  writeI64 := writeInt 8
  writeDouble bits := toBigEndian 8 bits.toNat

/-- Methods of the interface for the calls of the handler; the name that was set gets no number. -/
def method : ClientCall → TalkClientIf
  | .onGetVersion version => .onGetVersion version
  | .onSetUserNameSucceeded => .onSetUserNameSucceeded 0
  | .onSetUserNameFailed why => .onSetUserNameFailed why
  | .onSubscribeSucceeded topicId => .onSubscribe topicId
  | .onUnsubscribeSucceeded => .onUnsubscribeSucceeded
  | .onSubscribeShip name ship => .onSubscribeShip name ship

/-- A call is written by the generated client; an exception has its message and its type. -/
def frame : OutMessage → Bytes
  | .call call => OutputProtocol.flush (writer.talkClientClient (method call))
  | .unknownMethod fname seqid what =>
    OutputProtocol.flush <|
      writer.writeMessageBegin fname .exception seqid ++
        writer.writeStruct "TApplicationException"
          (writer.writeField "message" .string 1 (writer.writeString what) ++
            writer.writeField "type" .i32 2 (writer.writeI32 1)) ++
        writer.writeMessageEnd

def library : Thrift where
  begin := begin
  readMessageEnd := pure ()
  readEnd := pure ()
  readStructBegin := pure ()
  readStructEnd := pure ()
  readFieldBegin := readFieldBegin
  readFieldEnd := pure ()
  readString := readString
  readBinary := readString
  readI32 := readI32
  readDouble := do return UInt64.ofNat (bigEndian (← readAll 8))
  skip := skip
  frame := frame

def skipStruct : Reader Unit :=
  Decoder.loop readFieldBegin (fun f => f.1 = .stop) (fun _ f => skip f.1) ()

def clientLibrary : ClientThrift where
  toThrift := { library with
    skip := fun ftype => if ftype = .struct then skipStruct else skip ftype }
  readI64 := do return Int.bmod (bigEndian (← readAll 8)) (2 ^ 64)
  endOfFile := fun e => decide (e = .library "No more data to read.")
  setUserName := fun name => encodeFrame (setUserName name)

end ThriftAsio.BinaryProtocol
