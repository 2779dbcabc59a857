import PiPixelController.Residue.Basic
import PiPixelController.System.Packets

/-!
# Residue in the handler of data packets

`zcpp_process_data` takes the frame address, the length and the data from the receive buffer,
wherever the datagram ends.
-/

namespace PiPixelController

open CSemantics

namespace Zcpp

/-- The bytes of a data packet alone decide what it does: it carries the address and the length, and
all the data it declares, for which the pixel buffer has a place. -/
def DataDetermined (d : Datagram) : Prop :=
  14 ≤ d.bytes.length ∧ (packetDataLength d.eth = 0 ∨
    15 + (packetDataLength d.eth).toNat ≤ d.bytes.length ∧
      (frameAddress d.eth).toNat + (packetDataLength d.eth).toNat ≤ 24576)

/-- What a data packet does to the pixel buffer. -/
def dataEffect (eth : EthBuffer) (buffer : PixelBuffer) : Outcome PixelBuffer :=
  buffer.memcpy (frameAddress eth).toNat eth 15 (packetDataLength eth).toNat

section

variable {d : Datagram} {eth eth' : EthBuffer} {buffer : PixelBuffer}

/-- The effect is the copy the handler makes: the length is not negative. -/
theorem dataEffect_eq_memcpy (eth : EthBuffer) (buffer : PixelBuffer) :
    dataEffect eth buffer =
      buffer.memcpy (dataArgs eth).dst eth (dataArgs eth).src (sizeT (dataArgs eth).len) := by
  have hlt := (packetDataLength eth).isLt
  have hlen : sizeT (packetDataLength eth).toNat = (packetDataLength eth).toNat := by
    rw [sizeT_of_nonneg (by omega) (by omega), Int.toNat_natCast]
  simp only [dataArgs, dataEffect, hlen]

theorem processData_eq (eth : EthBuffer) (c : Controller) :
    processData eth c = do
      let buffer ← dataEffect eth c.pixelBuffer
      return { c with pixelBuffer := buffer } := by
  simp only [processData, dataEffect_eq_memcpy]

theorem toNat_packetDataLength (eth : EthBuffer) :
    (packetDataLength eth).toNat = (eth.get 12).toNat * 256 + (eth.get 13).toNat := by
  rw [packetDataLength, Block.ntohs_load16, toNat_word16]

theorem toNat_frameAddress (eth : EthBuffer) :
    (frameAddress eth).toNat = (((eth.get 8).toNat * 256 + (eth.get 9).toNat) * 256 +
      (eth.get 10).toNat) * 256 + (eth.get 11).toNat := by
  rw [frameAddress, Block.ntohl_load32, toNat_word32]

/-- A datagram of 14 bytes carries the address and the length. -/
theorem dataHeader_congr (hlen : 14 ≤ d.bytes.length) (heth : d.CarriedBy eth) :
    packetDataLength eth = packetDataLength d.eth ∧ frameAddress eth = frameAddress d.eth := by
  constructor
  · exact congrArg ntohs (Block.load16_congr fun i hi => heth (12 + i) (by omega))
  · exact congrArg ntohl (Block.load32_congr fun i hi => heth (8 + i) (by omega))

theorem dataEffect_of_determined (h : DataDetermined d) (heth : d.CarriedBy eth) :
    dataEffect eth buffer = dataEffect d.eth buffer := by
  obtain ⟨hlen, hdata⟩ := h
  obtain ⟨hlength, haddress⟩ := dataHeader_congr hlen heth
  rw [dataEffect, dataEffect, hlength, haddress]
  change buffer.memcpy _ eth ((15 : ℕ) : ℤ) _ = buffer.memcpy _ d.eth ((15 : ℕ) : ℤ) _
  apply Block.memcpy_congr
  intro _ i hi
  apply heth
  rcases hdata with hzero | hdata
  · rw [hzero] at hi
    exact absurd hi (Nat.not_lt_zero i)
  · omega

theorem dataEffect_ne_exit (eth : EthBuffer) (buffer : PixelBuffer) :
    dataEffect eth buffer ≠ .exit :=
  Block.memcpy_ne_exit _ _ _ _ _

theorem exists_dataEffect_iff :
    (∃ buffer', dataEffect eth buffer = .ok buffer') ↔
      Block.CopyFits 24576 1500 (frameAddress eth).toNat 15 (packetDataLength eth).toNat := by
  simp only [dataEffect, Block.memcpy_eq_ok_iff, exists_and_left, exists_eq, and_true]

/-- Data that are carried and have a place are copied inside both buffers. -/
theorem exists_dataEffect_of_determined (h : DataDetermined d) (buffer : PixelBuffer) :
    ∃ buffer', dataEffect d.eth buffer = .ok buffer' := by
  obtain ⟨-, hdata⟩ := h
  have hle := d.length_le
  rw [exists_dataEffect_iff, Block.CopyFits]
  rcases hdata with hzero | hdata
  · exact Or.inl (by rw [hzero]; rfl)
  · omega

theorem decides_of_dataDetermined (h : DataDetermined d) (buffer : PixelBuffer) :
    d.Decides fun eth => dataEffect eth buffer := by
  obtain ⟨buffer', hok⟩ := exists_dataEffect_of_determined h buffer
  exact .of_eth (by rw [hok]; simp) fun eth heth => dataEffect_of_determined h heth

/-- When the last data byte is residue, so is a byte of the pixel buffer afterwards. -/
theorem dataEffect_set_ne {t : EthBuffer} (len : ℕ)
    (hlen : (packetDataLength t).toNat = len + 1)
    (hdst : (frameAddress t).toNat + (len + 1) ≤ 24576) (hsrc : 15 + len < 1500)
    (hzero : t.get (15 + len) = 0) :
    dataEffect (t.set (15 + len) 1) buffer ≠ dataEffect t buffer := by
  have hheader : ∀ i < 15, (t.set (15 + len) 1).get i = t.get i :=
    fun i hi => EthBuffer.get_set_of_ne _ (by omega) _
  have hlen' : (packetDataLength (t.set (15 + len) 1)).toNat = len + 1 := by
    rw [packetDataLength, Block.load16_congr fun i hi => hheader (12 + i) (by omega),
      ← packetDataLength, hlen]
  have hdst' : frameAddress (t.set (15 + len) 1) = frameAddress t :=
    congrArg ntohl (Block.load32_congr fun i hi => hheader (8 + i) (by omega))
  have hfit : Block.CopyFits 24576 1500 (frameAddress t).toNat 15 (len + 1) := by
    rw [Block.CopyFits]
    omega
  rw [dataEffect, dataEffect, hlen, hlen', hdst', Block.memcpy_of_fits hfit,
    Block.memcpy_of_fits hfit]
  intro heq
  have hbyte := congrArg (Block.get · ((frameAddress t).toNat + len)) (Outcome.ok.inj heq)
  rw [Int.toNat_natCast, Block.get_copy _ _ _ _ _ (by omega), if_pos (by omega),
    Block.get_copy _ _ _ _ _ (by omega), if_pos (by omega), Nat.add_sub_cancel_left,
    show (15 : ℤ).toNat + len = 15 + len from rfl, EthBuffer.get_set_self _ (by omega),
    hzero] at hbyte
  exact absurd hbyte (by decide)

/-- A data packet that decides what happens is determined. -/
theorem dataDetermined_of_decides (h : d.Decides fun eth => dataEffect eth buffer) :
    DataDetermined d := by
  -- the copy is defined for every residue
  have hfits : ∀ {e : EthBuffer}, d.CarriedBy e →
      Block.CopyFits 24576 1500 (frameAddress e).toNat 15 (packetDataLength e).toNat := by
    intro e he
    by_contra hnot
    exact h.ne_undefined he (Block.memcpy_of_not_fits hnot)
  -- and no residue is copied
  have hcopied : ∀ {t : EthBuffer} (len : ℕ), d.CarriedBy t →
      (packetDataLength t).toNat = len + 1 → t.get (15 + len) = 0 →
      15 + len < d.bytes.length := by
    intro t len ht hlength hzero
    have hfit := hfits ht
    rw [hlength, Block.CopyFits] at hfit
    by_contra hshort
    exact dataEffect_set_ne len hlength (by omega) (by omega) hzero
      (h.eq (ht.set (by omega) 1) ht)
  by_cases hzero : packetDataLength d.eth = 0
  · refine ⟨?_, Or.inl hzero⟩
    -- a residue in place of the length would declare one byte
    by_contra hlt
    have h12 : (d.eth.get 12).toNat = 0 := by
      have h0 : (0 : BitVec 16).toNat = 0 := rfl
      have hsum := toNat_packetDataLength d.eth
      rw [hzero, h0] at hsum
      omega
    have hlength : (packetDataLength (d.eth.set 13 1)).toNat = 0 + 1 := by
      rw [toNat_packetDataLength, EthBuffer.get_set_of_ne _ (by decide),
        EthBuffer.get_set_self _ (by decide), h12]
      rfl
    have h15 : (d.eth.set 13 1).get (15 + 0) = 0 := by
      rw [EthBuffer.get_set_of_ne _ (by decide), Datagram.eth_get_of_le (by omega)]
    have hlong := hcopied 0 (d.carriedBy_eth.set (by omega) 1) hlength h15
    omega
  · obtain ⟨len, hlength⟩ := Nat.exists_eq_succ_of_ne_zero
      (fun h0 => hzero (BitVec.eq_of_toNat_eq h0) : (packetDataLength d.eth).toNat ≠ 0)
    rw [Nat.succ_eq_add_one] at hlength
    have hfit := hfits d.carriedBy_eth
    rw [hlength, Block.CopyFits] at hfit
    have hlong : 15 + len < d.bytes.length := by
      by_contra hshort
      have hlast := hcopied len d.carriedBy_eth hlength (Datagram.eth_get_of_le (not_lt.mp hshort))
      exact hshort hlast
    rw [DataDetermined, hlength]
    omega

theorem dataDecides_iff :
    (d.Decides fun eth => dataEffect eth buffer) ↔ DataDetermined d :=
  ⟨dataDetermined_of_decides, fun h => decides_of_dataDetermined h buffer⟩

end

end Zcpp

end PiPixelController
