import PiPixelController.Worker.Runs

/-!
# The frame codec

The block of the worker for a port as an encoder: from the pixel buffer and the port's mapping to
the bytes on the wire.

* `portAgree_portFrame` — which parts of the state the frame depends on;
* `refreshPort_roundTrip` — a receiver of the bytes reads back the eight slices of the port.
-/

namespace PiPixelController

open CSemantics

/-- The cells of port `p` agree, up to the starts of strings without channels. -/
def SameStrings (m m' : Mapping) (p : Fin 4) : Prop :=
  ∀ s, (m' (p, s)).channelCount = (m (p, s)).channelCount ∧
    ((m (p, s)).channelCount ≠ 0 → (m' (p, s)).startChannel = (m (p, s)).startChannel)

/-- What the block of port `p` reads agrees: not the payload buffers, and not the start of a
string without channels. -/
structure PortAgree (p : Fin 4) (c c' : Controller) : Prop where
  pixelBuffer : c'.pixelBuffer = c.pixelBuffer
  pixelPorts : c'.workers.pixelPorts = c.workers.pixelPorts
  device : c'.spiDev (c'.workers.spiDev p) = c.spiDev (c.workers.spiDev p)
  strings : SameStrings c.workers.mapping c'.workers.mapping p

section

variable {c c' : Controller} {p : Fin 4}

/-- A string without channels has no bytes, wherever it starts. -/
theorem Cell.bytes_of_zero {cell : Cell} (h : cell.channelCount = 0) (buffer : PixelBuffer) :
    cell.bytes buffer = [] := by
  rw [Cell.bytes, h]
  rfl

theorem SameStrings.portStrings_eq {m m' : Mapping} (h : SameStrings m m' p)
    (buffer : PixelBuffer) : portStrings m' buffer p = portStrings m buffer p := by
  apply List.map_congr_left
  intro s _
  obtain ⟨hcount, hstart⟩ := h s
  by_cases hzero : (m (p, s)).channelCount = 0
  · rw [Cell.bytes_of_zero hzero, Cell.bytes_of_zero (hcount.trans hzero)]
  · rw [Cell.bytes, Cell.bytes, hcount, hstart hzero]

theorem SameStrings.portPackable {m m' : Mapping} (h : SameStrings m m' p)
    (hpack : PortPackable m p) : PortPackable m' p where
  inBuffer := by
    intro s
    obtain ⟨hcount, hstart⟩ := h s
    obtain ⟨hnonneg, hslice⟩ := hpack.inBuffer s
    refine ⟨hcount ▸ hnonneg, fun hne => ?_⟩
    rw [hcount] at hne ⊢
    rw [hstart hne]
    exact hslice hne
  portCount_le := by
    have hsum : portCount m' p = portCount m p := by
      rw [portCount, portCount]
      simp only [(h _).1]
    rw [hsum]
    exact hpack.portCount_le

/-- The frame of a port depends on its strings and the pixel buffer only. -/
theorem portAgree_portFrame (h : PortAgree p c c') : portFrame c' p = portFrame c p := by
  rw [portFrame, portFrame, h.pixelBuffer, h.strings.portStrings_eq]

/-- The block of a packable port makes one transfer, of the first `count` bytes of the payload
it packs, which are the frame of the port. -/
theorem refreshPort_of_packable (hp : (p : ℤ) < c.workers.pixelPorts.toInt)
    (h : PortPackable c.workers.mapping p) (rets : Fin 4 → ℤ) (es : List (Fin 4 × SpiEvent)) :
    ∃ payload count, refreshPort rets (c, es) p = .ok (c.sent p payload count,
        es ++ (transferEvents (c.spiDev (c.workers.spiDev p)) (portFrame c p)).map
          (Prod.mk p)) ∧
      payload.bytes count.toNat = portFrame c p ∧
      (count.toNat : ℤ) = 16 + portCount c.workers.mapping p := by
  obtain ⟨c', events, hport, hsent⟩ := workerPort_of_packable h (rets p)
  obtain ⟨payload, count, heq⟩ := workerPort_eq_ok hport
  obtain ⟨rfl, rfl⟩ := Prod.mk.inj heq
  -- the one frame among the events is the message
  have hframe : payload.bytes count.toNat = portFrame c p := by
    have hframes := hsent.frames_eq
    simpa [transferEvents, frames] using hframes
  have hcount := hsent.count
  simp only [Controller.sent, Function.update_self] at hcount
  refine ⟨payload, count, ?_, hframe, hcount⟩
  rw [refreshPort, if_pos hp, hport, Outcome.ok_bind, ← hframe]
  rfl

theorem ControlBuffer.length_bytes (payload : ControlBuffer) (n : ℕ) :
    (payload.bytes n).length = n := by
  simp [bytes]

/-- What the block of port `p` does from `c`, which leaves `c'` and transmits `bytes`. -/
structure PortRoundTrip (p : Fin 4) (c c' : Controller) (bytes : List Byte) : Prop where
  /-- The device is handed the payload buffer of the port. -/
  buffer : (c'.spiDev (c'.workers.spiDev p)).buffer = some p
  /-- The bytes are its first `count` bytes. -/
  transmitted : bytes = (c'.payload p).bytes (c'.spiDev (c'.workers.spiDev p)).count.toNat
  length : (bytes.length : ℤ) = 16 + portCount c.workers.mapping p
  /-- A receiver cuts the bytes into the eight slices of the pixel buffer. -/
  decoded : Framing.decode 8 bytes = some ((List.finRange 8).map fun s =>
    c.pixelBuffer.slice (c.workers.mapping (p, s)).startChannel.toInt.toNat
      (c.workers.mapping (p, s)).channelCount.toInt.toNat)
  pixelBuffer : c'.pixelBuffer = c.pixelBuffer
  payload : ∀ q, q ≠ p → c'.payload q = c.payload q

/-- For every state and every port below `pixel_ports` whose strings can be packed, the block of
the port completes with one transfer on the port's device, of 16 bytes more than the sum of the
channel counts, which a receiver cuts into exactly the eight slices of the pixel buffer; it
changes neither the pixel buffer nor the payload buffer of another port. The same bytes are sent
from every state that agrees with this one up to the payload buffers and the starts of strings
without channels. -/
theorem refreshPort_roundTrip (hp : (p : ℤ) < c.workers.pixelPorts.toInt)
    (h : PortPackable c.workers.mapping p) (rets : Fin 4 → ℤ) (es : List (Fin 4 × SpiEvent)) :
    ∃ c' bytes,
      refreshPort rets (c, es) p = .ok (c',
        es ++ (transferEvents (c.spiDev (c.workers.spiDev p)) bytes).map (Prod.mk p)) ∧
      PortRoundTrip p c c' bytes ∧
      ∀ c₂, PortAgree p c c₂ → ∃ c₂', refreshPort rets (c₂, es) p = .ok (c₂',
        es ++ (transferEvents (c.spiDev (c.workers.spiDev p)) bytes).map (Prod.mk p)) := by
  obtain ⟨payload, count, hrun, hframe, hcount⟩ := refreshPort_of_packable hp h rets es
  refine ⟨_, portFrame c p, hrun, ⟨?_, ?_, ?_, decode_portFrame h, rfl, fun q hq => ?_⟩,
    fun c₂ hagree => ?_⟩
  · simp only [Controller.sent, Function.update_self]
  · simp only [Controller.sent, Function.update_self, hframe]
  · rw [← hframe, ControlBuffer.length_bytes, hcount]
  · exact Function.update_of_ne hq ..
  · obtain ⟨payload₂, count₂, hrun₂, -⟩ := refreshPort_of_packable
      (hagree.pixelPorts ▸ hp) (hagree.strings.portPackable h) rets es
    rw [hagree.device, portAgree_portFrame hagree] at hrun₂
    exact ⟨_, hrun₂⟩

end

/-- `refreshPort_roundTrip` for one port with two strings, of two channels from 5 on and of one
from 6 on. -/
theorem refreshPort_roundTrip_sample :
    let w : Workers := Function.update
      ((Workers.zero.setCell (0, 0) ⟨2, 5⟩).setCell (0, 1) ⟨1, 6⟩) 0 1
    let c : Controller := { (default : Controller) with workers := w }
    ∃ c' bytes, refreshPort (fun _ => 1) (c, []) 0 = .ok (c',
        (transferEvents (c.spiDev (c.workers.spiDev 0)) bytes).map (Prod.mk 0)) ∧
      bytes.length = 19 := by
  intro w c
  have hpack : ∀ p : Fin 4, (p : ℤ) < w.pixelPorts.toInt → PortPackable w.mapping p := by
    decide
  obtain ⟨c', bytes, hrun, htrip, -⟩ :=
    @refreshPort_roundTrip c 0 (by decide) (hpack 0 (by decide)) (fun _ => 1) []
  refine ⟨c', bytes, hrun, ?_⟩
  have hsum : portCount c.workers.mapping 0 = 3 := by decide
  have hlen := htrip.length
  omega

end PiPixelController
