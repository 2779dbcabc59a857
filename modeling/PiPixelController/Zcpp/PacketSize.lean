import PiPixelController.Residue.Config

/-!
# The size of a packet

`ZCPP_GetPacketActualSize` of `ZCPP.h` next to what the handlers read. The header of a
configuration is taken to be `sizeof(ZCPP_Configuration)` less one entry, but the entries are a
flexible array member, which adds nothing to the size of the structure: the result is 16 bytes
short. For a data packet the sum is returned as 16 bits.

* `processConfig_congr` — the configuration handler reads nothing behind `configEnd`;
* `packet_size_iff` — the size is that of the region a handler walks for no configuration, and for
  data packets up to 65520 bytes of data.
-/

namespace PiPixelController

open CSemantics

namespace Zcpp

/-! ### The sizes of the packed structures -/

/-- `sizeof(ZCPP_Discovery)`. -/
def sizeofDiscovery : ℕ := 8

/-- `sizeof(ZCPP_DiscoveryResponse)`. -/
def sizeofDiscoveryResponse : ℕ := 88

/-- `sizeof(ZCPP_PortConfig)`. -/
def sizeofPortConfig : ℕ := 16

/-- `sizeof(ZCPP_Configuration)`; `PortConfig[]` adds nothing to it. -/
def sizeofConfiguration : ℕ := 44

/-- `ZCPP_CONFIGURATION_HEADER_SIZE`. -/
def configurationHeaderSize : ℕ := sizeofConfiguration - sizeofPortConfig

/-- `sizeof(ZCPP_QueryConfigurationResponse)`, `PortConfig[1]` included. -/
def sizeofQueryConfigurationResponse : ℕ := 60

/-- `ZCPP_QUERYCONFIGURATIONRESPONSE_HEADER_SIZE`. -/
def queryConfigurationResponseHeaderSize : ℕ :=
  sizeofQueryConfigurationResponse - sizeofPortConfig

/-- `sizeof(ZCPP_QueryConfiguration)`. -/
def sizeofQueryConfiguration : ℕ := 6

/-- `sizeof(ZCPP_PortExtraData)`, `description[1]` included. -/
def sizeofPortExtraData : ℕ := 4

/-- `ZCPP_PORTEXTRADATA_HEADER_SIZE`. -/
def portExtraDataHeaderSize : ℕ := sizeofPortExtraData - 1

/-- `sizeof(ZCPP_ExtraData)`, `PortExtraData[1]` included. -/
def sizeofExtraData : ℕ := 16

/-- `ZCPP_EXTRADATA_HEADER_SIZE`. -/
def extraDataHeaderSize : ℕ := sizeofExtraData - sizeofPortExtraData

/-- `sizeof(ZCPP_Sync)`. -/
def sizeofSync : ℕ := 7

/-- `sizeof(ZCPP_Data)`, `data[1]` included. -/
def sizeofData : ℕ := 16

/-- `ZCPP_DATA_HEADER_SIZE`. -/
def dataHeaderSize : ℕ := sizeofData - 1

/-! ### The size function -/

/-- One round of the loop over the descriptions: `descriptionLength` is the third byte of the
element at `raw[size]`. -/
def addExtraData (eth : EthBuffer) (size : ℕ) (_i : ℕ) : Outcome ℕ :=
  if size + 2 < 1500 then .ok (size + (portExtraDataHeaderSize + (eth.get (size + 2)).toNat))
  else .undefined

/-- `ZCPP_GetPacketActualSize` of the packet in a receive buffer, with the conversion of its
result to `uint16_t`. -/
def getPacketActualSize (eth : EthBuffer) : Outcome (BitVec 16) :=
  if packetType eth = 0x00 then .ok (BitVec.ofNat 16 sizeofDiscovery)
  else if packetType eth = 0x01 then .ok (BitVec.ofNat 16 sizeofDiscoveryResponse)
  else if packetType eth = 0x0A then
    .ok (BitVec.ofNat 16 (configurationHeaderSize + ports eth * sizeofPortConfig))
  else if packetType eth = 0x0B then do
    -- `ExtraData.ports`
    let size ← (List.range (eth.get 11).toNat).foldlM (addExtraData eth) extraDataHeaderSize
    return BitVec.ofNat 16 size
  else if packetType eth = 0x0C then .ok (BitVec.ofNat 16 sizeofQueryConfiguration)
  else if packetType eth = 0x0D then
    -- `QueryConfigurationResponse.ports`, at the place of `Configuration.ports`
    .ok (BitVec.ofNat 16
      (queryConfigurationResponseHeaderSize + ports eth * sizeofPortConfig))
  else if packetType eth = 0x14 then
    .ok (BitVec.ofNat 16 (dataHeaderSize + (fromWire16 (eth.load16 12)).toNat))
  else if packetType eth = 0x15 then .ok (BitVec.ofNat 16 sizeofSync)
  else .ok 0

/-! ### The regions the handlers walk -/

/-- The end of `PortConfig[ports - 1]`, the start of `PortConfig` when there is no entry. -/
def configEnd (eth : EthBuffer) : ℕ := 44 + 16 * ports eth

/-- The end of the bytes `zcpp_process_data` copies. -/
def dataEnd (eth : EthBuffer) : ℕ := ((dataArgs eth).src + (dataArgs eth).len).toNat

section

variable {eth eth' : EthBuffer}

/-- The configuration handler does not look behind `configEnd`. -/
theorem processConfig_congr (h : ∀ i < configEnd eth, eth.get i = eth'.get i) (c : Controller) :
    processConfig eth c = processConfig eth' c := by
  simp only [configEnd] at h
  rw [processConfig_eq, processConfig_eq, configEffect, configEffect,
    sequenceNumber_congr fun i hi => h i (by omega), ← ports_congr fun i hi => h i (by omega)]
  have hentries : ∀ w : Workers, (List.range (ports eth)).foldlM (processEntry eth) w =
      (List.range (ports eth)).foldlM (processEntry eth') w :=
    foldlM_processEntry_congr fun i hi => h i (by omega)
  simp only [hentries]

theorem dataEnd_eq (eth : EthBuffer) : dataEnd eth = 15 + (packetDataLength eth).toNat := by
  simp only [dataEnd, dataArgs]
  omega

/-- The size function returns the end of the region, so that comparing it with the number of bytes
received is an exact check for truncation. -/
def SizeExact (eth : EthBuffer) (regionEnd : ℕ) : Prop :=
  ∃ size, getPacketActualSize eth = .ok size ∧ size.toNat = regionEnd ∧
    ∀ received : ℕ, size.toNat ≤ received ↔ regionEnd ≤ received

/-- The reader and the size function agree on the packet, if it is a configuration or data. -/
structure SizeAgrees (eth : EthBuffer) : Prop where
  config : packetType eth = 0x0A → SizeExact eth (configEnd eth)
  data : packetType eth = 0x14 → SizeExact eth (dataEnd eth)

/-- When the function returns, only the value it returns is to be compared. -/
theorem sizeExact_iff {size : BitVec 16} (hsize : getPacketActualSize eth = .ok size)
    {regionEnd : ℕ} : SizeExact eth regionEnd ↔ size.toNat = regionEnd := by
  rw [SizeExact, Outcome.exists_ok_iff hsize]
  exact ⟨And.left, fun h => ⟨h, fun received => by rw [h]⟩⟩

/-- The size of a configuration is 16 bytes short. -/
theorem getPacketActualSize_config (h : packetType eth = 0x0A) :
    getPacketActualSize eth = .ok (BitVec.ofNat 16 (28 + ports eth * 16)) := by
  rw [getPacketActualSize, h]
  rfl

theorem not_sizeExact_config (h : packetType eth = 0x0A) : ¬SizeExact eth (configEnd eth) := by
  have hports : ports eth < 256 := (eth.get 43).isLt
  rw [sizeExact_iff (getPacketActualSize_config h), BitVec.toNat_ofNat, configEnd]
  omega

theorem getPacketActualSize_data (h : packetType eth = 0x14) :
    getPacketActualSize eth = .ok (BitVec.ofNat 16 (15 + (packetDataLength eth).toNat)) := by
  rw [getPacketActualSize, h]
  rfl

/-- The size of a data packet is right while it fits in 16 bits. -/
theorem sizeExact_data_iff (h : packetType eth = 0x14) :
    SizeExact eth (dataEnd eth) ↔ (packetDataLength eth).toNat ≤ 65520 := by
  have hlen : (packetDataLength eth).toNat < 65536 := (packetDataLength eth).isLt
  rw [sizeExact_iff (getPacketActualSize_data h), BitVec.toNat_ofNat, dataEnd_eq]
  omega

end

end Zcpp

/-- For every packet: the size function and the readers agree exactly when it is no configuration
and, if it is a data packet, has at most 65520 bytes of data. -/
theorem packet_size_iff (eth : EthBuffer) :
    Zcpp.SizeAgrees eth ↔ Zcpp.packetType eth ≠ 0x0A ∧
      (Zcpp.packetType eth = 0x14 → (Zcpp.packetDataLength eth).toNat ≤ 65520) := by
  constructor
  · rintro ⟨hconfig, hdata⟩
    exact ⟨fun h => Zcpp.not_sizeExact_config h (hconfig h),
      fun h => (Zcpp.sizeExact_data_iff h).mp (hdata h)⟩
  · rintro ⟨hconfig, hdata⟩
    exact ⟨fun h => absurd h hconfig, fun h => (Zcpp.sizeExact_data_iff h).mpr (hdata h)⟩

/-- For a configuration without entries the function returns 28, the entries start at 44. -/
theorem not_packet_size_sample : ¬∀ eth : EthBuffer, Zcpp.SizeAgrees eth := by
  intro h
  let eth : EthBuffer := fun i => if i.val = 4 then 0x0A else 0
  exact Zcpp.not_sizeExact_config (show Zcpp.packetType eth = 0x0A from rfl) ((h eth).config rfl)

end PiPixelController
