import Mathlib.Data.List.GetD
import PiPixelController.Zcpp.Config

/-!
# Encoding configuration packets

A source sends a configuration as a 44-byte header and 16 bytes for each entry. `encode` builds
such a packet for any sequence number and up to 91 entries, the most a datagram of 1500 bytes
holds; reading it back returns the sequence number and the entries (`entries_encode`,
`sequenceNumber_encode`).
-/

namespace PiPixelController

open CSemantics

/-- A concatenation of blocks of one length, indexed by block and offset. -/
private theorem getElem?_flatMap_of_length {α β : Type} {f : α → List β} {n : ℕ}
    (hf : ∀ x, (f x).length = n) (l : List α) (a : ℕ) {j : ℕ} (hj : j < n) :
    (l.flatMap f)[n * a + j]? = l[a]?.bind fun x => (f x)[j]? := by
  induction l generalizing a with
  | nil => simp
  | cons x l ih =>
      rw [List.flatMap_cons]
      -- block 0 is the first `n` elements, block `a + 1` is block `a` of the rest
      cases a with
      | zero =>
          rw [List.getElem?_append_left (by rw [hf]; omega)]
          simp
      | succ a =>
          rw [List.getElem?_append_right (by rw [hf, Nat.mul_succ]; omega), hf,
            show n * (a + 1) + j - n = n * a + j by rw [Nat.mul_succ]; omega, ih]
          simp

/-- A 32-bit word, most significant byte first. -/
def bigEndian (v : BitVec 32) : List Byte :=
  [v.extractLsb' 24 8, v.extractLsb' 16 8, v.extractLsb' 8 8, v.extractLsb' 0 8]

namespace PortConfig

/-- The 16 bytes of an entry; the fields the handler does not use are zero. -/
def encode (e : PortConfig) : List Byte :=
  [e.port, e.string, 0, 0] ++ bigEndian e.startChannel ++ bigEndian e.channels ++ [0, 0, 0, 0]

theorem length_encode (e : PortConfig) : e.encode.length = 16 := rfl

end PortConfig

namespace ConfigPacket

/-- The header of a configuration of `n` entries. -/
def encodeHeader (sequence : BitVec 16) (n : ℕ) : List Byte :=
  Zcpp.token ++ [0x0A, 0x00, highByte sequence, lowByte sequence] ++ List.replicate 35 0 ++
    [BitVec.ofNat 8 n]

theorem length_encodeHeader (sequence : BitVec 16) (n : ℕ) :
    (encodeHeader sequence n).length = 44 := rfl

theorem length_flatMap_encode (es : List PortConfig) :
    (es.flatMap PortConfig.encode).length = 16 * es.length := by
  induction es with
  | nil => rfl
  | cons e es ih =>
      rw [List.flatMap_cons, List.length_append, ih, PortConfig.length_encode,
        List.length_cons, Nat.mul_succ, Nat.add_comm]

/-- The datagram of a configuration. -/
def encodeDatagram (sequence : BitVec 16) (es : List PortConfig) (h : es.length ≤ 91) :
    Datagram where
  bytes := encodeHeader sequence es.length ++ es.flatMap PortConfig.encode
  length_le := by
    rw [List.length_append, length_encodeHeader, length_flatMap_encode]
    omega

section

variable {sequence : BitVec 16} {es : List PortConfig} {h : es.length ≤ 91}

theorem eth_get_header {i : ℕ} (hi : i < 44) :
    (encodeDatagram sequence es h).eth.get i = (encodeHeader sequence es.length).getD i 0 := by
  rw [Datagram.eth_get, encodeDatagram]
  exact List.getD_append _ _ _ _ hi

theorem eth_get_entry {a j : ℕ} (ha : a < es.length) (hj : j < 16) :
    (encodeDatagram sequence es h).eth.get (44 + 16 * a + j) = es[a].encode.getD j 0 := by
  -- behind the header of 44 bytes the entries are blocks of 16
  rw [Datagram.eth_get, encodeDatagram, List.getD_append_right _ _ _ _ (by
    rw [length_encodeHeader]; omega), length_encodeHeader,
    show 44 + 16 * a + j - 44 = 16 * a + j by omega, List.getD_eq_getElem?_getD,
    getElem?_flatMap_of_length PortConfig.length_encode es a hj, List.getElem?_eq_getElem ha,
    Option.bind_some, List.getD_eq_getElem?_getD]

theorem ports_encodeDatagram : Zcpp.ports (encodeDatagram sequence es h).eth = es.length := by
  rw [Zcpp.ports, eth_get_header (by decide)]
  change (BitVec.ofNat 8 es.length).toNat = es.length
  rw [BitVec.toNat_ofNat]
  omega

theorem portConfig_encodeDatagram {a : ℕ} (ha : a < es.length) :
    Zcpp.portConfig (encodeDatagram sequence es h).eth a = es[a] := by
  have hget : ∀ j < 16, (encodeDatagram sequence es h).eth.get (44 + 16 * a + j) =
      es[a].encode.getD j 0 := fun j hj => eth_get_entry ha hj
  have hstart : ntohl ((encodeDatagram sequence es h).eth.load32 (44 + 16 * a + 4)) =
      es[a].startChannel := by
    rw [Block.ntohl_load32]
    simp only [Nat.add_assoc (44 + 16 * a), Nat.reduceAdd, hget 4 (by decide),
      hget 5 (by decide), hget 6 (by decide), hget 7 (by decide)]
    exact word32_extractLsb' _
  have hchannels : ntohl ((encodeDatagram sequence es h).eth.load32 (44 + 16 * a + 8)) =
      es[a].channels := by
    rw [Block.ntohl_load32]
    simp only [Nat.add_assoc (44 + 16 * a), Nat.reduceAdd, hget 8 (by decide),
      hget 9 (by decide), hget 10 (by decide), hget 11 (by decide)]
    exact word32_extractLsb' _
  have hport : (encodeDatagram sequence es h).eth.get (44 + 16 * a) = es[a].port :=
    hget 0 (by decide)
  have hstring : (encodeDatagram sequence es h).eth.get (44 + 16 * a + 1) = es[a].string :=
    hget 1 (by decide)
  rw [Zcpp.portConfig, hport, hstring, hstart, hchannels]

theorem sequenceNumber_encodeDatagram :
    Zcpp.sequenceNumber (encodeDatagram sequence es h).eth = sequence := by
  rw [Zcpp.sequenceNumber, Block.ntohs_load16, eth_get_header (by decide),
    eth_get_header (by decide)]
  exact word16_highByte_lowByte sequence

end

/-- The packet with the given sequence number and entries. -/
def encode (sequence : BitVec 16) (es : List PortConfig) (h : es.length ≤ 91) :
    ConfigPacket where
  datagram := encodeDatagram sequence es h
  token := by
    rw [Zcpp.tokenMatches_iff]
    intro i hi
    rw [eth_get_header (by omega), encodeHeader, List.append_assoc, List.append_assoc]
    exact List.getD_append _ _ _ _ hi
  type := eth_get_header (by decide)
  complete := by
    rw [ports_encodeDatagram, encodeDatagram, List.length_append, length_encodeHeader,
      length_flatMap_encode]

/-- Reading back an encoded packet returns its entries. -/
@[simp]
theorem entries_encode (sequence : BitVec 16) (es : List PortConfig) (h : es.length ≤ 91) :
    (encode sequence es h).entries = es := by
  rw [entries, encode, ports_encodeDatagram]
  apply List.ext_getElem (by simp)
  intro a ha ha'
  rw [List.getElem_map, List.getElem_range, portConfig_encodeDatagram ha']

/-- Reading back an encoded packet returns its sequence number. -/
@[simp]
theorem sequenceNumber_encode (sequence : BitVec 16) (es : List PortConfig)
    (h : es.length ≤ 91) : (encode sequence es h).sequenceNumber = sequence.setWidth 32 := by
  rw [ConfigPacket.sequenceNumber, encode, sequenceNumber_encodeDatagram]

theorem inTable_encode {sequence : BitVec 16} {es : List PortConfig} {h : es.length ≤ 91} :
    (encode sequence es h).InTable ↔ ∀ e ∈ es, e.InTable := by
  rw [InTable, entries_encode]

/-- A packet declares at most 91 entries, since it is complete. -/
theorem length_entries_le (P : ConfigPacket) : P.entries.length ≤ 91 := by
  have hlen := P.complete.trans P.datagram.length_le
  rw [entries, List.length_map, List.length_range]
  omega

end ConfigPacket

end PiPixelController
