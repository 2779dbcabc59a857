import PiPixelController.System.Defs
import PiPixelController.WriteLog

/-!
# Configuration packets

What handling a complete configuration packet does, stated on the mapping. A complete packet
is a datagram that carries all the entries it declares; its fields do not depend on what the
receive buffer held before. For such a packet:

* `processConfig_recvfrom` — the handler makes the assignments `configStores`, in order;
* `zcppMulticastListen_config` — with entries inside the 4×8 table, one listener iteration
  follows the abstract step `ConfigView.step`: a new sequence number clears the mapping, then
  the entries overwrite their cells;
* `run_config` — so does any sequence of packets.
-/

namespace PiPixelController

open CSemantics WriteLog

namespace PortConfig

/-- The entry configures the cell `k`. -/
def IsFor (e : PortConfig) (k : Fin 4 × Fin 8) : Prop :=
  e.port.toNat = k.1 ∧ e.string.toNat = k.2

instance (e : PortConfig) (k : Fin 4 × Fin 8) : Decidable (e.IsFor k) := by
  unfold IsFor
  infer_instance

/-- Port and string lie inside the 4×8 table. -/
def InTable (e : PortConfig) : Prop := e.port.toNat < 4 ∧ e.string.toNat < 8

instance (e : PortConfig) : Decidable e.InTable := by
  unfold InTable
  infer_instance

/-- An entry inside the table configures exactly one cell. -/
theorem InTable.exists_isFor {e : PortConfig} (h : e.InTable) : ∃ k, e.IsFor k :=
  ⟨(⟨e.port.toNat, h.1⟩, ⟨e.string.toNat, h.2⟩), rfl, rfl⟩

theorem IsFor.unique {e : PortConfig} {k k' : Fin 4 × Fin 8} (h : e.IsFor k)
    (h' : e.IsFor k') : k = k' :=
  Prod.ext (Fin.ext (h.1.symm.trans h'.1)) (Fin.ext (h.2.symm.trans h'.2))

/-- The assignments the handler makes for the entry. -/
def stores (e : PortConfig) : List WordStore := cellStores e.port.toNat e.string.toNat e.cell

theorem IsFor.stores_eq {e : PortConfig} {k : Fin 4 × Fin 8} (h : e.IsFor k) :
    e.stores = cellStores k.1 k.2 e.cell := by
  rw [stores, h.1, h.2]

/-- The entry as a partial write of the mapping. -/
def patch (e : PortConfig) : Patch (Fin 4 × Fin 8) Cell :=
  fun k => if e.IsFor k then some e.cell else none

theorem patch_of_isFor {e : PortConfig} {k : Fin 4 × Fin 8} (h : e.IsFor k) :
    e.patch k = some e.cell :=
  if_pos h

theorem patch_eq_some_iff {e : PortConfig} {k : Fin 4 × Fin 8} {c : Cell} :
    e.patch k = some c ↔ e.IsFor k ∧ e.cell = c := by
  simp [patch]

theorem IsFor.patch_eq_single {e : PortConfig} {k : Fin 4 × Fin 8} (h : e.IsFor k) :
    e.patch = Patch.single k e.cell := by
  funext k'
  by_cases hk : k' = k
  · subst hk
    simp [patch, Patch.single, h]
  · have hne : ¬e.IsFor k' := fun h' => hk (h'.unique h)
    simp [patch, Patch.single, hk, hne]

end PortConfig

/-- The last of the entries for the cell `k`. -/
def lastEntry (es : List PortConfig) (k : Fin 4 × Fin 8) : Option PortConfig :=
  es.reverse.find? fun e => e.IsFor k

/-- The latest value a list of entries writes to a cell is that of the last entry for it. -/
theorem latest_map_patch (es : List PortConfig) (k : Fin 4 × Fin 8) :
    latest (es.map PortConfig.patch) k = (lastEntry es k).map PortConfig.cell := by
  rw [latest, lastEntry, ← List.map_reverse, List.findSome?_map]
  -- both search the entries from the last one on
  induction es.reverse with
  | nil => rfl
  | cons e es ih =>
      by_cases h : e.IsFor k
      · simp [PortConfig.patch, h]
      · simpa [PortConfig.patch, h] using ih

theorem lastEntry_isSome_iff (es : List PortConfig) (k : Fin 4 × Fin 8) :
    (lastEntry es k).isSome ↔ ∃ e ∈ es, e.IsFor k := by
  simp [lastEntry, List.find?_isSome]

theorem lastEntry_eq_some {es : List PortConfig} {k : Fin 4 × Fin 8} {e : PortConfig}
    (h : lastEntry es k = some e) : e ∈ es ∧ e.IsFor k := by
  refine ⟨List.mem_reverse.mp (List.mem_of_find?_eq_some h), ?_⟩
  simpa using List.find?_some h

/-! ### Assignments on the mapping -/

namespace Workers

/-- `w'` holds the mapping `m` and agrees with `w` outside the table. -/
def Holds (w w' : Workers) (m : Mapping) : Prop := w'.mapping = m ∧ SameOutsideTable w' w

theorem storeAll_flatMap {ι : Type} (f : ι → List WordStore) (is : List ι) (w : Workers) :
    w.storeAll (is.flatMap f) = is.foldlM (fun w i => w.storeAll (f i)) w := by
  induction is generalizing w with
  | nil => rfl
  | cons i is ih =>
      rw [List.flatMap_cons, storeAll_append, List.foldlM_cons]
      simp only [ih]

/-- Writing cells in order replays the writes on the mapping. -/
theorem storeAll_cells (cells : List ((Fin 4 × Fin 8) × Cell)) (w : Workers) :
    ∃ w', w.storeAll (cells.flatMap fun kc => cellStores kc.1.1 kc.1.2 kc.2) = .ok w' ∧
      Holds w w' (replay (cells.map fun kc => Patch.single kc.1 kc.2) w.mapping) := by
  rw [storeAll_flatMap, replay, List.foldl_map]
  refine Outcome.foldlM_simulates (R := Holds w) ?_ ⟨rfl, SameOutsideTable.refl w⟩
  rintro s m ⟨k, c⟩ - ⟨hm, hout⟩
  refine ⟨s.setCell k c, storeAll_cellStores k c, ?_, (sameOutsideTable_setCell k c).trans hout⟩
  rw [mapping_setCell, hm, Patch.apply_single]

/-- The entries of a packet, all inside the table, overwrite their cells in order. -/
theorem storeAll_entries (es : List PortConfig) (h : ∀ e ∈ es, e.InTable) (w : Workers) :
    ∃ w', w.storeAll (es.flatMap PortConfig.stores) = .ok w' ∧
      Holds w w' (replay (es.map PortConfig.patch) w.mapping) := by
  rw [storeAll_flatMap, replay, List.foldl_map]
  refine Outcome.foldlM_simulates (R := Holds w) ?_ ⟨rfl, SameOutsideTable.refl w⟩
  rintro s m e he ⟨hm, hout⟩
  -- an entry in the table writes the cell it is for
  obtain ⟨k, hk⟩ := (h e he).exists_isFor
  refine ⟨s.setCell k e.cell, ?_, ?_, (sameOutsideTable_setCell k _).trans hout⟩
  · rw [hk.stores_eq, storeAll_cellStores]
  · rw [mapping_setCell, hm, hk.patch_eq_single, Patch.apply_single]

end Workers

namespace Zcpp

/-- The cells of the clearing loop, in its order. -/
def clearedCells : List ((Fin 4 × Fin 8) × Cell) :=
  (List.finRange 4).flatMap fun p => (List.finRange 8).map fun s => ((p, s), ⟨0, 0⟩)

theorem clearStores_eq :
    clearStores = clearedCells.flatMap fun kc => cellStores kc.1.1 kc.1.2 kc.2 := by
  decide

/-- The clearing loop sets every cell to `(0, 0)` and touches nothing else. -/
theorem storeAll_clearStores (w : Workers) :
    ∃ w', w.storeAll clearStores = .ok w' ∧ Workers.Holds w w' fun _ => ⟨0, 0⟩ := by
  obtain ⟨w', hw', hmap, hout⟩ := Workers.storeAll_cells clearedCells w
  refine ⟨w', clearStores_eq ▸ hw', hmap.trans ?_, hout⟩
  funext k
  have hmem : ∀ kc ∈ clearedCells, kc.2 = ⟨0, 0⟩ := by decide
  rw [replay_apply]
  cases hl : latest (clearedCells.map fun kc => Patch.single kc.1 kc.2) k with
  | none =>
      -- the loop writes every cell, so `k` has a latest value
      have hk : (k, (⟨0, 0⟩ : Cell)) ∈ clearedCells := by
        simp [clearedCells]
      have hnone := (latest_eq_none_iff _ k).mp hl _ (List.mem_map_of_mem hk)
      simp [Patch.single] at hnone
  | some v =>
      obtain ⟨f, hf, hfk⟩ := exists_mem_of_latest_eq_some hl
      obtain ⟨kc, hkc, rfl⟩ := List.mem_map.mp hf
      rw [Option.getD_some, ← hmem kc hkc]
      simp only [Patch.single] at hfk
      split at hfk
      · exact (Option.some.inj hfk).symm
      · cases hfk

end Zcpp

/-! ### Complete packets -/

/-- An entry depends only on its first 12 bytes. -/
theorem Zcpp.portConfig_congr {eth eth' : EthBuffer} {a : ℕ}
    (h : ∀ i < 44 + 16 * a + 12, eth.get i = eth'.get i) :
    portConfig eth a = portConfig eth' a := by
  have hport := h (44 + 16 * a) (by omega)
  have hstring := h (44 + 16 * a + 1) (by omega)
  have hstart : eth.load32 (44 + 16 * a + 4) = eth'.load32 (44 + 16 * a + 4) :=
    Block.load32_congr fun i hi => h _ (by omega)
  have hchannels : eth.load32 (44 + 16 * a + 8) = eth'.load32 (44 + 16 * a + 8) :=
    Block.load32_congr fun i hi => h _ (by omega)
  rw [portConfig, portConfig, hport, hstring, hstart, hchannels]

theorem Zcpp.sequenceNumber_congr {eth eth' : EthBuffer} (h : ∀ i < 8, eth.get i = eth'.get i) :
    sequenceNumber eth = sequenceNumber eth' := by
  rw [sequenceNumber, sequenceNumber, Block.load16_congr fun i hi => h (6 + i) (by omega)]

theorem Zcpp.ports_congr {eth eth' : EthBuffer} (h : ∀ i < 44, eth.get i = eth'.get i) :
    ports eth = ports eth' := by
  rw [ports, ports, h 43 (by decide)]

open Zcpp in
/-- A complete configuration packet: a datagram with the ZCPP token and the type of a
configuration, long enough for the entries it declares. -/
structure ConfigPacket where
  /-- The datagram. -/
  datagram : Datagram
  /-- It starts with the ZCPP token. -/
  token : TokenMatches datagram.eth
  /-- Its type is `ZCPP_TYPE_CONFIG`. -/
  type : packetType datagram.eth = 0x0A
  /-- It carries the declared entries. -/
  complete : 44 + 16 * ports datagram.eth ≤ datagram.bytes.length

namespace ConfigPacket

variable (P : ConfigPacket)

/-- The sequence number, as the `int` it is compared and stored as. -/
def sequenceNumber : BitVec 32 := (Zcpp.sequenceNumber P.datagram.eth).setWidth 32

/-- The entries. -/
def entries : List PortConfig :=
  (List.range (Zcpp.ports P.datagram.eth)).map (Zcpp.portConfig P.datagram.eth)

/-- All entries lie inside the 4×8 table. -/
def InTable : Prop := ∀ e ∈ P.entries, e.InTable

/-- The packet as a partial write of the mapping. -/
def patch : Patch (Fin 4 × Fin 8) Cell := latest (P.entries.map PortConfig.patch)

/-- The assignments the handler makes on the packet when `last_config_sequence` is `last`. -/
def stores (last : BitVec 32) : List WordStore :=
  (if last ≠ P.sequenceNumber then Zcpp.clearStores else []) ++
    P.entries.flatMap PortConfig.stores

/-- The action of the ZCPP listener receiving the packet. -/
def action (net : Network) (P : ConfigPacket) : Action := .zcpp net (some P.datagram)

variable {P} (eth : EthBuffer)

theorem get_recvfrom {i : ℕ} (h : i < 44 + 16 * Zcpp.ports P.datagram.eth) :
    (EthBuffer.recvfrom eth (some P.datagram)).get i = P.datagram.eth.get i :=
  Datagram.get_recvfrom eth (lt_of_lt_of_le h P.complete)

/-- The listener recognises the packet as a configuration. -/
theorem received_eq : Zcpp.received (EthBuffer.recvfrom eth (some P.datagram)) =
    some .config := by
  have htoken : Zcpp.TokenMatches (EthBuffer.recvfrom eth (some P.datagram)) :=
    (Zcpp.tokenMatches_congr fun i hi => get_recvfrom eth (by omega)).mpr P.token
  rw [Zcpp.received, if_pos htoken, Zcpp.packetType, get_recvfrom eth (by omega)]
  rw [show P.datagram.eth.get 4 = 0x0A from P.type]
  rfl

theorem sequenceNumber_recvfrom :
    (Zcpp.sequenceNumber (EthBuffer.recvfrom eth (some P.datagram))).setWidth 32 =
      P.sequenceNumber := by
  rw [sequenceNumber, Zcpp.sequenceNumber_congr fun i hi => get_recvfrom eth (by omega)]

theorem ports_recvfrom : Zcpp.ports (EthBuffer.recvfrom eth (some P.datagram)) =
    Zcpp.ports P.datagram.eth :=
  Zcpp.ports_congr fun i hi => get_recvfrom eth (by omega)

/-- Every declared entry is read, and read from the datagram. -/
theorem readPortConfig_recvfrom {a : ℕ} (ha : a < Zcpp.ports P.datagram.eth) :
    Zcpp.readPortConfig (EthBuffer.recvfrom eth (some P.datagram)) a =
      .ok (Zcpp.portConfig P.datagram.eth a) := by
  -- a complete packet fits in the receive buffer, so its entries do
  have hlen := P.complete.trans P.datagram.length_le
  rw [Zcpp.readPortConfig, if_pos (by omega)]
  exact congrArg Outcome.ok
    (Zcpp.portConfig_congr fun i hi => get_recvfrom eth (by omega))

/-- The loop over the entries makes their assignments in order. -/
theorem foldlM_processEntry (w : Workers) :
    (List.range (Zcpp.ports P.datagram.eth)).foldlM
        (Zcpp.processEntry (EthBuffer.recvfrom eth (some P.datagram))) w =
      w.storeAll (P.entries.flatMap PortConfig.stores) := by
  rw [Workers.storeAll_flatMap, entries, List.foldlM_map]
  apply Outcome.foldlM_congr
  intro w a ha
  rw [Zcpp.processEntry, readPortConfig_recvfrom eth (List.mem_range.mp ha), Outcome.ok_bind]
  rfl

/-- On a complete packet the handler makes the assignments `stores`, in order, and records the
sequence number. -/
theorem processConfig_recvfrom (c : Controller) :
    Zcpp.processConfig (EthBuffer.recvfrom eth (some P.datagram)) c = do
      let w ← c.workers.storeAll (P.stores c.lastConfigSequence)
      return { c with lastConfigSequence := P.sequenceNumber, workers := w } := by
  rw [Zcpp.processConfig, sequenceNumber_recvfrom, ports_recvfrom, stores,
    Workers.storeAll_append]
  by_cases h : c.lastConfigSequence = P.sequenceNumber
  · -- recording the number again changes nothing
    rw [if_neg (not_not.mpr h), if_neg (not_not.mpr h), Workers.storeAll_nil, ← h]
    simp only [Outcome.pure_eq_ok, Outcome.ok_bind, foldlM_processEntry]
  · rw [if_pos h, if_pos h]
    simp only [Outcome.pure_eq_ok, bind_assoc, Outcome.ok_bind, foldlM_processEntry]

/-- One listener iteration on a complete packet executes the assignments `stores`. -/
theorem step_action (params : Params) (net : Network) (c : Controller) :
    c.step params (P.action net) = do
      let w ← c.workers.storeAll (P.stores c.lastConfigSequence)
      return { c with
        zcppEthBuffer := EthBuffer.recvfrom c.zcppEthBuffer (some P.datagram)
        lastConfigSequence := P.sequenceNumber
        workers := w } := by
  simp only [action, Controller.step, zcppMulticastListen, Zcpp.dispatch, received_eq,
    processConfig_recvfrom]
  cases c.workers.storeAll (P.stores c.lastConfigSequence) <;> rfl

end ConfigPacket

/-! ### The abstract configuration step -/

/-- The part of the state a configuration packet is about. -/
@[ext]
structure ConfigView where
  /-- The sequence number of the last configuration. -/
  sequence : BitVec 32
  /-- The channel mapping. -/
  mapping : Mapping

namespace ConfigView

/-- The mapping the entries of a packet are written over: nothing when the sequence number is
new. -/
def base (v : ConfigView) (P : ConfigPacket) : Mapping :=
  if v.sequence = P.sequenceNumber then v.mapping else fun _ => ⟨0, 0⟩

/-- A packet with a new sequence number starts from an empty mapping; its entries overwrite
their cells. -/
def step (v : ConfigView) (P : ConfigPacket) : ConfigView where
  sequence := P.sequenceNumber
  mapping := P.patch.apply (v.base P)

end ConfigView

/-- The abstract configuration state of the controller. -/
def Controller.configView (c : Controller) : ConfigView :=
  ⟨c.lastConfigSequence, c.workers.mapping⟩

/-- A packet with all entries in the table follows the abstract step on the mapping. -/
theorem ConfigPacket.storeAll_stores {P : ConfigPacket} (h : P.InTable) (last : BitVec 32)
    (w : Workers) :
    ∃ w', w.storeAll (P.stores last) = .ok w' ∧
      Workers.Holds w w' ((ConfigView.mk last w.mapping).step P).mapping := by
  by_cases hseq : last = P.sequenceNumber
  · -- no clearing loop: the entries are stored over the mapping in `w`
    obtain ⟨w', hw', hmap, hout⟩ := w.storeAll_entries P.entries h
    refine ⟨w', ?_, ?_, hout⟩
    · rw [stores, if_neg (not_not.mpr hseq), List.nil_append, hw']
    · rw [hmap, replay_eq_apply_latest, ConfigView.step, ConfigView.base, if_pos hseq]
      rfl
  · -- the entries are stored over the cleared mapping
    obtain ⟨w₁, hw₁, hmap₁, hout₁⟩ := Zcpp.storeAll_clearStores w
    obtain ⟨w', hw', hmap, hout⟩ := w₁.storeAll_entries P.entries h
    refine ⟨w', ?_, ?_, hout.trans hout₁⟩
    · rw [stores, if_pos hseq, Workers.storeAll_append, hw₁, Outcome.ok_bind, hw']
    · rw [hmap, replay_eq_apply_latest, hmap₁, ConfigView.step, ConfigView.base, if_neg hseq]
      rfl

/-- The parts of the controller a configuration packet never touches. -/
structure SameExceptConfig (c c' : Controller) : Prop where
  pixelBuffer : c'.pixelBuffer = c.pixelBuffer
  outside : Workers.SameOutsideTable c'.workers c.workers
  payload : c'.payload = c.payload
  spiDev : c'.spiDev = c.spiDev

theorem SameExceptConfig.refl (c : Controller) : SameExceptConfig c c :=
  ⟨rfl, Workers.SameOutsideTable.refl _, rfl, rfl⟩

theorem SameExceptConfig.trans {c₁ c₂ c₃ : Controller} (h : SameExceptConfig c₁ c₂)
    (h' : SameExceptConfig c₂ c₃) : SameExceptConfig c₁ c₃ :=
  ⟨h'.pixelBuffer.trans h.pixelBuffer, h'.outside.trans h.outside,
    h'.payload.trans h.payload, h'.spiDev.trans h.spiDev⟩

/-- One listener iteration on a complete packet with entries in the table. -/
theorem zcppMulticastListen_config {P : ConfigPacket} (h : P.InTable) (params : Params)
    (net : Network) (c : Controller) :
    ∃ c', c.step params (P.action net) = .ok c' ∧ c'.configView = c.configView.step P ∧
      SameExceptConfig c c' := by
  obtain ⟨w', hw', hmap, hout⟩ := P.storeAll_stores h c.lastConfigSequence c.workers
  let c' : Controller :=
    { c with
      zcppEthBuffer := EthBuffer.recvfrom c.zcppEthBuffer (some P.datagram)
      lastConfigSequence := P.sequenceNumber
      workers := w' }
  refine ⟨c', ?_, ?_, ?_⟩
  · rw [ConfigPacket.step_action, hw', Outcome.ok_bind, Outcome.pure_eq_ok]
  · exact ConfigView.ext rfl hmap
  · exact ⟨rfl, hout, rfl, rfl⟩

/-- Any sequence of complete packets with entries in the table follows the abstract steps. -/
theorem run_config {ps : List ConfigPacket} (h : ∀ P ∈ ps, P.InTable) (params : Params)
    (net : Network) (c : Controller) :
    ∃ c', c.run params (ps.map (ConfigPacket.action net)) = .ok c' ∧
      c'.configView = ps.foldl ConfigView.step c.configView ∧ SameExceptConfig c c' := by
  rw [Controller.run, List.foldlM_map]
  refine Outcome.foldlM_simulates
    (R := fun s v => s.configView = v ∧ SameExceptConfig c s) ?_ ⟨rfl, SameExceptConfig.refl c⟩
  rintro s v P hP ⟨rfl, hsame⟩
  obtain ⟨s', hs', hview, hsame'⟩ := zcppMulticastListen_config (h P hP) params net s
  exact ⟨s', hs', hview, hsame.trans hsame'⟩

/-- The state a sequence of such packets ends in. -/
theorem configView_of_run {ps : List ConfigPacket} (h : ∀ P ∈ ps, P.InTable) {params : Params}
    {net : Network} {c c' : Controller}
    (hrun : c.run params (ps.map (ConfigPacket.action net)) = .ok c') :
    c'.configView = ps.foldl ConfigView.step c.configView ∧ SameExceptConfig c c' := by
  obtain ⟨c'', hrun', hview⟩ := run_config h params net c
  obtain rfl : c' = c'' := Outcome.ok.inj (hrun.symm.trans hrun')
  exact hview

end PiPixelController
