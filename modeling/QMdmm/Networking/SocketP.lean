import QMdmm.Core.Packet
import QMdmm.Support.LineFraming

namespace QMdmmNetworking

open QMdmmCore

namespace Socket

inductive ErrorCode where
  | NoError
  | TransportError
  | ProtocolError
  deriving DecidableEq

structure Error where
  code : ErrorCode
  errorString : String
  deriving DecidableEq

def DefaultMaximumPacketSize : Int := 1024 * 1024

end Socket

/-- What a `SocketP` keeps set on its `QTcpSocket` or `QLocalSocket`. -/
structure Transport where
  /-- It was not told to disconnect. -/
  connected : Bool
  /-- How much it buffers; 0 is no bound. -/
  readBufferSize : Int
  deriving DecidableEq

/-- `SocketP`, with what its signals have carried so far and the state of the
slots they are connected to. -/
structure SocketP (σ : Type) where
  socket : Option Transport
  error : Option Socket.Error
  maximumPacketSize : Int
  slots : σ
  packetsReceived : List PacketDataP
  errorsOccurred : List Socket.Error

namespace SocketP

variable {σ : Type}

/-- The same for both transports that are framed by lines. -/
def applyMaximumPacketSize (d : SocketP σ) : SocketP σ :=
  { d with
    socket := d.socket.map fun socket =>
      { socket with readBufferSize := if d.maximumPacketSize > 0 then d.maximumPacketSize else 0 } }

/-- A socket around a transport that is already open. -/
def new (slots : σ) : SocketP σ :=
  applyMaximumPacketSize {
    socket := some ⟨true, 0⟩
    error := none
    maximumPacketSize := Socket.DefaultMaximumPacketSize
    slots
    packetsReceived := []
    errorsOccurred := [] }

def setMaximumPacketSize (d : SocketP σ) (maximumPacketSize : Int) : SocketP σ :=
  applyMaximumPacketSize { d with maximumPacketSize }

def disconnectFromHost (d : SocketP σ) : SocketP σ × Bool :=
  match d.socket with
  | some socket => ({ d with socket := some { socket with connected := false } }, true)
  | none => (d, false)

/-- `Socket::setError`. -/
def setError (d : SocketP σ) (error : Socket.Error) : SocketP σ :=
  (disconnectFromHost { d with error := some error }).1

def errorOccurred (d : SocketP σ) (error : Socket.Error) : SocketP σ :=
  { d with error := some error, errorsOccurred := d.errorsOccurred ++ [error] }

/-- The error of a peer that sent so many bytes and no line among them. -/
def unterminatedData (availableBytes : Nat) : Socket.Error :=
  ⟨.ProtocolError, "the peer sent " ++ toString availableBytes ++ " bytes without ending a packet"⟩

def giveUpOnUnterminatedData (d : SocketP σ) (availableBytes : Nat) : SocketP σ × Bool :=
  if d.maximumPacketSize ≤ 0 ∨ (availableBytes : Int) < d.maximumPacketSize then (d, false)
  else
    let err := unterminatedData availableBytes
    ((d.errorOccurred err).setError err, true)

/-- The transport is gone from memory once the event loop has run. -/
def deleted (d : SocketP σ) : SocketP σ :=
  { d with socket := none }

section Slots

-- `QJsonDocument::fromJson`, and the slots: how a packet changes their state,
-- and the text of the error they record on the socket where they reject it
variable (parse : List UInt8 → Except String QJsonValue)
  (slot : σ → PacketDataP → σ × Option String)

/-- `emit q->packetReceived(packet)`. -/
def emitPacketReceived (d : SocketP σ) (packet : PacketDataP) : SocketP σ :=
  let (slots, rejection) := slot d.slots packet
  let d := { d with slots, packetsReceived := d.packetsReceived ++ [packet] }
  match rejection with
  | none => d
  | some errorString => d.setError ⟨.ProtocolError, errorString⟩

def packetReceived (d : SocketP σ) (arr : List UInt8) : SocketP σ × Bool :=
  let packet := Packet.fromJson (parse arr)
  if Packet.hasError packet then
    let err : Socket.Error := ⟨.ProtocolError, packet.error⟩
    ((d.errorOccurred err).setError err, false)
  else
    let d := d.emitPacketReceived slot packet
    (d, d.error.isNone)

/-- `'\n'`. -/
def newline : UInt8 := 10

/-- The slot of both transports, on the bytes the transport holds. -/
def readyReadLines (d : SocketP σ) (buffer : List UInt8) : SocketP σ × List UInt8 :=
  if d.socket.isNone then (d, buffer)
  else
    let drained := LineFraming.drain newline (packetReceived parse slot) d buffer
    if drained.more then
      ((drained.state.giveUpOnUnterminatedData drained.buffer.length).1, drained.buffer)
    else (drained.state, drained.buffer)

end Slots

end SocketP

def SocketP_QTcpSocket.readyRead {σ : Type} (parse : List UInt8 → Except String QJsonValue)
    (slot : σ → PacketDataP → σ × Option String) (d : SocketP σ) (buffer : List UInt8) :
    SocketP σ × List UInt8 :=
  d.readyReadLines parse slot buffer

def SocketP_QLocalSocket.readyRead {σ : Type} (parse : List UInt8 → Except String QJsonValue)
    (slot : σ → PacketDataP → σ × Option String) (d : SocketP σ) (buffer : List UInt8) :
    SocketP σ × List UInt8 :=
  d.readyReadLines parse slot buffer

/-- The transports that are framed by lines. -/
inductive LineTransport where
  | QTcpSocket
  | QLocalSocket

namespace LineTransport

def readyRead {σ : Type} (parse : List UInt8 → Except String QJsonValue)
    (slot : σ → PacketDataP → σ × Option String) :
    LineTransport → SocketP σ → List UInt8 → SocketP σ × List UInt8
  | .QTcpSocket => SocketP_QTcpSocket.readyRead parse slot
  | .QLocalSocket => SocketP_QLocalSocket.readyRead parse slot

@[simp] theorem readyRead_eq {σ : Type} (parse : List UInt8 → Except String QJsonValue)
    (slot : σ → PacketDataP → σ × Option String) (transport : LineTransport) (d : SocketP σ)
    (buffer : List UInt8) :
    transport.readyRead parse slot d buffer = d.readyReadLines parse slot buffer := by
  cases transport <;> rfl

end LineTransport

end QMdmmNetworking
