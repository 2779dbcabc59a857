import PiPixelController.ThreadCtrl.Defs

/-!
# State of the controller

The globals and buffers the three threads of the program work on: the pixel buffer both
listeners write and the worker reads, the `workers` array with the channel mapping, the
sequence number of the last configuration, the four payload buffers of the worker, the SPI
device records, and the receive buffer of each listener.

A received datagram carries at most 1500 bytes (`ETH_BUFFER_SIZE`); `recvfrom` overwrites only
that many bytes of the receive buffer and leaves the rest as earlier datagrams left it.
-/

namespace PiPixelController

open CSemantics

/-- The `PIXEL_BUFFER_SIZE = MAX_UNIVERSES * UNIVERSE_SIZE = 48 * 512` bytes at `pixelBuffer`. -/
abbrev PixelBuffer := Block 24576

/-- A receive buffer of `ETH_BUFFER_SIZE` bytes. -/
abbrev EthBuffer := Block 1500

/-- `control_buffer` of the worker: eight counts and `MAX_CHANNELS_PER_DEVICE` data bytes. -/
structure ControlBuffer where
  /-- `uint16_t channel_count[8]`. -/
  channelCount : Fin 8 → BitVec 16
  /-- `uint8_t channel_data[MAX_CHANNELS_PER_DEVICE]`. -/
  channelData : Block 19200
deriving Inhabited

namespace ControlBuffer

/-- The byte at offset `i`: the counts are stored little-endian in the first 16 bytes. -/
def get (payload : ControlBuffer) (i : ℕ) : Byte :=
  if h : i < 16 then
    let count := payload.channelCount ⟨i / 2, by omega⟩
    if i % 2 = 0 then lowByte count else highByte count
  else payload.channelData.get (i - 16)

/-- The first `n` bytes. -/
def bytes (payload : ControlBuffer) (n : ℕ) : List Byte := (List.range n).map payload.get

end ControlBuffer

/-- `output_type`. -/
inductive OutputType where
  | PIC
  | PICO
deriving DecidableEq, Inhabited

/-- `spi_device`. -/
structure SpiDevice where
  /-- `spi_bus`. -/
  spiBus : BitVec 32
  /-- `spi_cs`, the index into the seven entries of `pins`. -/
  spiCs : Fin 7
  /-- `device_type`. -/
  deviceType : OutputType
  /-- `dev_handle`. -/
  devHandle : BitVec 32
  /-- `uint16_t count`. -/
  count : BitVec 16
  /-- `buffer`: which of `payload1`, …, `payload4` it points to, `none` for a null pointer. -/
  buffer : Option (Fin 4)
deriving Inhabited

/-- The state the listeners and the worker share, and the buffers each of them keeps. -/
structure Controller where
  /-- The bytes at `pixelBuffer`; also what `workers[0].buffer` points to. -/
  pixelBuffer : PixelBuffer
  /-- The global array `workers`. -/
  workers : Workers
  /-- `last_config_sequence`. -/
  lastConfigSequence : BitVec 32
  /-- `payload1`, …, `payload4`. -/
  payload : Fin 4 → ControlBuffer
  /-- What the memory at each address is as a `spi_device` record. -/
  spiDev : BitVec 64 → SpiDevice
  /-- `eth_buffer` of `acn_listen`. -/
  acnEthBuffer : EthBuffer
  /-- `eth_buffer` of `zcpp_multicast_listen`. -/
  zcppEthBuffer : EthBuffer
deriving Inhabited

/-- A received datagram. -/
structure Datagram where
  /-- The bytes it carries. -/
  bytes : List Byte
  /-- `recvfrom` returns at most `ETH_BUFFER_SIZE` bytes. -/
  length_le : bytes.length ≤ 1500
deriving DecidableEq

namespace EthBuffer

/-- The receive buffer after `recvfrom`: the datagram the call copies overwrites its first bytes;
`none` is a call that copies nothing. -/
def recvfrom (eth : EthBuffer) : Option Datagram → EthBuffer
  | some d => Block.write eth 0 d.bytes
  | none => eth

variable {eth : EthBuffer} {d : Datagram} {i : ℕ}

theorem get_recvfrom_of_lt (eth : EthBuffer) (h : i < d.bytes.length) :
    (recvfrom eth (some d)).get i = d.bytes[i] := by
  have hi := d.length_le
  rw [recvfrom, Block.get_write_of_mem eth (by omega) (Nat.zero_le i) h]
  simp

theorem get_recvfrom_of_le (h : d.bytes.length ≤ i) :
    (recvfrom eth (some d)).get i = eth.get i :=
  Block.get_write_of_notMem eth (Or.inr (by omega))

/-- The bytes a datagram carries do not depend on what the buffer held before. -/
theorem get_recvfrom_congr (eth eth' : EthBuffer) (h : i < d.bytes.length) :
    (recvfrom eth (some d)).get i = (recvfrom eth' (some d)).get i := by
  rw [get_recvfrom_of_lt eth h, get_recvfrom_of_lt eth' h]

end EthBuffer

/-- The bytes of a datagram at the start of a zeroed buffer. -/
def Datagram.eth (d : Datagram) : EthBuffer := EthBuffer.recvfrom (fun _ => 0) (some d)

theorem Datagram.eth_get (d : Datagram) (i : ℕ) : d.eth.get i = d.bytes.getD i 0 := by
  rw [Datagram.eth, List.getD_eq_getElem?_getD]
  by_cases h : i < d.bytes.length
  · rw [EthBuffer.get_recvfrom_of_lt _ h, List.getElem?_eq_getElem h, Option.getD_some]
  · rw [EthBuffer.get_recvfrom_of_le (not_lt.mp h), List.getElem?_eq_none (not_lt.mp h),
      Option.getD_none]
    simp [Block.get]

/-- A listener reads the bytes a datagram carries as they are in the datagram. -/
theorem Datagram.get_recvfrom {d : Datagram} {i : ℕ} (eth : EthBuffer)
    (h : i < d.bytes.length) : (EthBuffer.recvfrom eth (some d)).get i = d.eth.get i :=
  EthBuffer.get_recvfrom_congr eth _ h

/-- The arguments of a `memcpy` into the pixel buffer, the length before its conversion to
`size_t`. -/
structure MemcpyArgs where
  /-- Offset of the destination from `pixelBuffer`. -/
  dst : ℤ
  /-- Offset of the source in the receive buffer. -/
  src : ℤ
  /-- The length argument. -/
  len : ℤ
deriving DecidableEq

end PiPixelController
