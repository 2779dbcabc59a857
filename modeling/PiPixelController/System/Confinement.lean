import PiPixelController.Startup.Mapping
import PiPixelController.ThreadCtrl.Confinement
import PiPixelController.Zcpp.ConfigRuns

/-!
# Runs with arbitrary indices

Neither `main` nor `zcpp_process_config` checks the port and string it is given. Here whole
inputs, a configuration file and a sequence of configuration packets, are compared with the same
inputs without the records and entries outside the 4×8 table (`ConfigFile.inTableOnly`,
`ConfigPacket.inTableOnly`).

* `run_inTableOnly` — the two runs keep `workers[0]` equal as long as every entry is harmless;
* `writes_confined_iff` — `main` and the handler change for every record and entry of an input at
  most its own cell exactly when all of them are harmless, and then the whole run is that of the
  cleaned input.
-/

namespace PiPixelController

open CSemantics

/-! ### The writes of an input -/

/-- What an entry asks to store. -/
def PortConfig.write (e : PortConfig) : CellWrite := ⟨e.port.toNat, e.string.toNat, e.cell⟩

theorem PortConfig.inTable_write {e : PortConfig} : e.write.InTable ↔ e.InTable := by
  simp only [CellWrite.InTable, PairInTable, PortConfig.write, PortConfig.InTable]
  omega

/-- What a record of `bus0.csN` asks to store; nothing when a field is missing. -/
def recordWrites (cs : Fin 4) (r : ChannelRecord) : List CellWrite :=
  match r.string, r.start, r.channels with
  | some ledStr, some startChannel, some channelCount =>
      [⟨cs, ledStr.toInt, ⟨channelCount, startChannel⟩⟩]
  | _, _, _ => []

theorem recordStores_eq (cs : Fin 4) :
    recordStores cs = fun r => (recordWrites cs r).flatMap CellWrite.stores := by
  funext r
  rcases r with ⟨_ | _, _ | _, _ | _⟩ <;> rfl

/-- The body of the loop over the records of `bus0.csN`. -/
def loadRecord (cs : Fin 4) (w : Workers) (r : ChannelRecord) : Outcome Workers :=
  w.storeAll (recordStores cs r)

/-- Reading the file is the loop over its records. -/
theorem loadChannels_eq_foldlM (file : ConfigFile) :
    loadChannels file = (List.finRange 4).foldlM
      (fun w cs => (file.records cs).foldlM (loadRecord cs) w) Workers.zero := by
  rw [loadChannels, fileStores, Workers.storeAll_flatMap]
  refine Outcome.foldlM_congr (fun w cs _ => ?_) _
  rw [Workers.storeAll_flatMap]
  rfl

/-- What the records of the file ask to store, in order. -/
def fileWrites (file : ConfigFile) : List CellWrite :=
  (List.finRange 4).flatMap fun cs => (file.records cs).flatMap (recordWrites cs)

theorem fileStores_eq (file : ConfigFile) :
    fileStores file = (fileWrites file).flatMap CellWrite.stores := by
  simp only [fileStores, fileWrites, List.flatMap_assoc, recordStores_eq]

/-- The record's string is one of the eight. -/
def ChannelRecord.InTable (r : ChannelRecord) : Bool :=
  r.string.all fun ledStr => 0 ≤ ledStr.toInt ∧ ledStr.toInt < 8

/-- The file without the records for strings that do not exist. -/
def ConfigFile.inTableOnly (file : ConfigFile) : ConfigFile :=
  { file with cs := fun cs => (file.cs cs).map fun rs => rs.filter ChannelRecord.InTable }

theorem recordWrites_filter (cs : Fin 4) (r : ChannelRecord) :
    (recordWrites cs r).filter CellWrite.InTable =
      if r.InTable then recordWrites cs r else [] := by
  rw [recordWrites, ChannelRecord.InTable]
  split
  next ledStr startChannel channelCount hstring _ _ =>
    have hcs : (0 : ℤ) ≤ cs ∧ (cs : ℤ) < 4 := by omega
    simp only [List.filter_cons, CellWrite.InTable, PairInTable, hcs, true_and, hstring,
      Option.all_some, List.filter_nil]
  next => simp

theorem fileWrites_inTableOnly (file : ConfigFile) :
    fileWrites file.inTableOnly = (fileWrites file).filter CellWrite.InTable := by
  rw [fileWrites, fileWrites, List.filter_flatMap]
  congr 1
  funext cs
  have hrecords : file.inTableOnly.records cs =
      (file.records cs).filter ChannelRecord.InTable := by
    simp only [ConfigFile.records, ConfigFile.inTableOnly]
    cases file.cs cs <;> rfl
  rw [hrecords, List.filter_flatMap]
  -- record by record
  induction file.records cs with
  | nil => rfl
  | cons r rs ih =>
      rw [List.flatMap_cons, recordWrites_filter, List.filter_cons]
      split
      · rw [List.flatMap_cons, ih]
      · rw [ih, List.nil_append]

namespace ConfigPacket

/-- The packet without the entries outside the table. -/
def inTableOnly (P : ConfigPacket) : ConfigPacket :=
  encode (Zcpp.sequenceNumber P.datagram.eth) (P.entries.filter fun e => e.InTable)
    ((List.length_filter_le _ _).trans P.length_entries_le)

variable (P : ConfigPacket)

theorem sequenceNumber_inTableOnly : P.inTableOnly.sequenceNumber = P.sequenceNumber :=
  sequenceNumber_encode ..

theorem entries_inTableOnly : P.inTableOnly.entries = P.entries.filter fun e => e.InTable :=
  entries_encode ..

/-- What the handler stores for the packet, the clearing loop included. -/
def writes (last : BitVec 32) : List CellWrite :=
  (if last ≠ P.sequenceNumber then
    Zcpp.clearedCells.map fun kc => ⟨kc.1.1, kc.1.2, kc.2⟩ else []) ++
    P.entries.map PortConfig.write

theorem stores_eq (last : BitVec 32) :
    P.stores last = (P.writes last).flatMap CellWrite.stores := by
  rw [stores, writes, List.flatMap_append, List.flatMap_map]
  congr 1
  split
  · rw [Zcpp.clearStores_eq, List.flatMap_map]
    rfl
  · rfl

theorem writes_inTableOnly (last : BitVec 32) :
    P.inTableOnly.writes last = (P.writes last).filter CellWrite.InTable := by
  rw [writes, writes, List.filter_append, sequenceNumber_inTableOnly, entries_inTableOnly,
    List.filter_map]
  congr 1
  · split
    · decide
    · rfl
  · congr 1
    apply List.filter_congr
    intro e _
    simp only [Function.comp_apply, PortConfig.inTable_write]

variable {P}

/-- With harmless entries everything the handler stores is harmless. -/
theorem harmless_writes (h : ∀ e ∈ P.entries, e.write.Harmless) (last : BitVec 32) :
    ∀ x ∈ P.writes last, x.Harmless := by
  intro x hx
  rw [writes, List.mem_append] at hx
  rcases hx with hx | hx
  · split at hx
    · obtain ⟨kc, -, rfl⟩ := List.mem_map.mp hx
      refine Or.inl ⟨?_, ?_, ?_, ?_⟩ <;> simp only <;> omega
    · cases hx
  · obtain ⟨e, he, rfl⟩ := List.mem_map.mp hx
    exact h e he

end ConfigPacket

/-! ### Runs -/

/-- Two states agree on `workers[0]` and on the recorded sequence number. -/
structure SameCtrl (c c' : Controller) : Prop where
  threadCtrl : c.workers.threadCtrl = c'.workers.threadCtrl
  lastConfigSequence : c.lastConfigSequence = c'.lastConfigSequence

/-- One packet with harmless entries, and the packet without the entries outside the table. -/
theorem step_inTableOnly {P : ConfigPacket} (h : ∀ e ∈ P.entries, e.write.Harmless)
    {c c' : Controller} (hsame : SameCtrl c c') (params : Params) (net : Network) :
    ∃ d d', c.step params (P.action net) = .ok d ∧
      c'.step params (P.inTableOnly.action net) = .ok d' ∧ SameCtrl d d' := by
  obtain ⟨w, w', hw, hw', hctrl⟩ := Workers.storeAll_inTableOnly
    (ConfigPacket.harmless_writes h c.lastConfigSequence) hsame.threadCtrl
  rw [← ConfigPacket.stores_eq] at hw
  rw [← ConfigPacket.writes_inTableOnly, ← ConfigPacket.stores_eq,
    hsame.lastConfigSequence] at hw'
  refine ⟨_, _, by rw [ConfigPacket.step_action, hw]; rfl,
    by rw [ConfigPacket.step_action, hw']; rfl, hctrl, ?_⟩
  exact P.sequenceNumber_inTableOnly.symm

/-- Any sequence of packets with harmless entries. -/
theorem run_inTableOnly {ps : List ConfigPacket}
    (h : ∀ P ∈ ps, ∀ e ∈ P.entries, e.write.Harmless) {c c' : Controller}
    (hsame : SameCtrl c c') (params : Params) (net : Network) :
    ∃ d d', c.run params (ps.map (ConfigPacket.action net)) = .ok d ∧
      c'.run params (ps.map fun P => P.inTableOnly.action net) = .ok d' ∧ SameCtrl d d' := by
  induction ps generalizing c c' with
  | nil => exact ⟨c, c', rfl, rfl, hsame⟩
  | cons P ps ih =>
      obtain ⟨s, s', hs, hs', hsame'⟩ :=
        step_inTableOnly (h P List.mem_cons_self) hsame params net
      obtain ⟨d, d', hd, hd', hsame''⟩ :=
        ih (fun Q hQ => h Q (List.mem_cons_of_mem P hQ)) hsame'
      refine ⟨d, d', ?_, ?_, hsame''⟩
      · rw [List.map_cons, Controller.run, List.foldlM_cons, hs, Outcome.ok_bind]
        exact hd
      · rw [List.map_cons, Controller.run, List.foldlM_cons, hs', Outcome.ok_bind]
        exact hd'

/-- Start-up with harmless records, and without the records outside the table. -/
theorem startWorkers_inTableOnly {file : ConfigFile} (h : ∀ x ∈ fileWrites file, x.Harmless)
    (addresses : Addresses) :
    ∃ w w', startWorkers file addresses = .ok w ∧
      startWorkers file.inTableOnly addresses = .ok w' ∧ w.threadCtrl = w'.threadCtrl := by
  obtain ⟨w, w', hw, hw', hctrl⟩ :=
    Workers.storeAll_inTableOnly h (rfl : Workers.zero.threadCtrl = Workers.zero.threadCtrl)
  rw [← fileStores_eq] at hw
  rw [← fileWrites_inTableOnly, ← fileStores_eq] at hw'
  refine ⟨_, _, by rw [startWorkers, loadChannels, hw]; rfl,
    by rw [startWorkers, loadChannels, hw']; rfl, ?_⟩
  exact Workers.threadCtrl_setFields_congr hctrl _ _

/-- All records and entries of an input. -/
def inputWrites (file : ConfigFile) (ps : List ConfigPacket) : List CellWrite :=
  fileWrites file ++ (entriesOf ps).map PortConfig.write

/-- In every state, and whatever the receive buffer held, `main` changes for a record, and the
handler for an entry, at most the cell of the pair it names. -/
structure WritesConfined (file : ConfigFile) (ps : List ConfigPacket) : Prop where
  records : ∀ cs, ∀ r ∈ file.records cs, ∀ ledStr ∈ r.string,
    ConfinedTo cs ledStr.toInt fun w => loadRecord cs w r
  entries : ∀ P ∈ ps, ∀ a < Zcpp.ports P.datagram.eth, ∀ eth,
    ConfinedTo (Zcpp.portConfig P.datagram.eth a).port.toNat
      (Zcpp.portConfig P.datagram.eth a).string.toNat
      fun w => Zcpp.processEntry (EthBuffer.recvfrom eth (some P.datagram)) w a

/-- A record is confined exactly when what it asks to store is harmless. -/
theorem confinedTo_record_iff (cs : Fin 4) (r : ChannelRecord) :
    (∀ ledStr ∈ r.string, ConfinedTo cs ledStr.toInt fun w => loadRecord cs w r) ↔
      ∀ x ∈ recordWrites cs r, x.Harmless := by
  simp only [loadRecord, recordStores_eq]
  rcases r with ⟨_ | ledStr, start, channels⟩
  · simp [recordWrites]
  · rcases start with _ | startChannel
    · simp [recordWrites, ConfinedTo]
    · rcases channels with _ | channelCount
      · simp [recordWrites, ConfinedTo]
      · simpa [recordWrites] using
          CellWrite.confinedTo_stores_iff ⟨cs, ledStr.toInt, ⟨channelCount, startChannel⟩⟩

theorem confinedTo_entry_iff {P : ConfigPacket} {a : ℕ} (ha : a < Zcpp.ports P.datagram.eth)
    (eth : EthBuffer) :
    (ConfinedTo (Zcpp.portConfig P.datagram.eth a).port.toNat
      (Zcpp.portConfig P.datagram.eth a).string.toNat
      fun w => Zcpp.processEntry (EthBuffer.recvfrom eth (some P.datagram)) w a) ↔
      (Zcpp.portConfig P.datagram.eth a).write.Harmless := by
  rw [← CellWrite.confinedTo_stores_iff]
  simp only [Zcpp.processEntry, ConfigPacket.readPortConfig_recvfrom eth ha, Outcome.ok_bind]
  rfl

theorem writesConfined_iff (file : ConfigFile) (ps : List ConfigPacket) :
    WritesConfined file ps ↔ ∀ x ∈ inputWrites file ps, x.Harmless := by
  simp only [inputWrites, fileWrites, entriesOf, ConfigPacket.entries, List.mem_append,
    List.mem_flatMap, List.mem_finRange, true_and, List.mem_map, List.mem_range]
  constructor
  · rintro ⟨hrecords, hentries⟩ x (⟨cs, r, hr, hx⟩ | ⟨e, ⟨P, hP, a, ha, rfl⟩, rfl⟩)
    · exact (confinedTo_record_iff cs r).mp (hrecords cs r hr) x hx
    · exact (confinedTo_entry_iff ha P.datagram.eth).mp (hentries P hP a ha _)
  · intro h
    refine ⟨fun cs r hr => ?_, fun P hP a ha eth => ?_⟩
    · exact (confinedTo_record_iff cs r).mpr fun x hx => h x (Or.inl ⟨cs, r, hr, hx⟩)
    · exact (confinedTo_entry_iff ha eth).mpr (h _ (Or.inr ⟨_, ⟨P, hP, a, ha, rfl⟩, rfl⟩))

/-- For every configuration file and every sequence of complete configuration packets with
arbitrary strings and ports: `main` changes for each record, and the handler for each entry, at
most its own cell of the 4×8 table, if and only if each pair is in the table or harmless. In
that case start-up and every prefix of the packets leave in `workers[0]` what the same input
leaves without the records and entries outside the table. -/
theorem writes_confined_iff (file : ConfigFile) (ps : List ConfigPacket) :
    (WritesConfined file ps ↔ ∀ x ∈ inputWrites file ps, x.Harmless) ∧
    ((∀ x ∈ inputWrites file ps, x.Harmless) →
      ∀ (addresses : Addresses) (params : Params) (net : Network),
      ∃ w w', startWorkers file addresses = .ok w ∧
        startWorkers file.inTableOnly addresses = .ok w' ∧ w.threadCtrl = w'.threadCtrl ∧
        ∀ c c' : Controller, c.workers = w → c'.workers = w' →
          c.lastConfigSequence = c'.lastConfigSequence → ∀ n, ∃ d d',
            c.run params ((ps.take n).map (ConfigPacket.action net)) = .ok d ∧
            c'.run params ((ps.take n).map fun P => P.inTableOnly.action net) = .ok d' ∧
            d.workers.threadCtrl = d'.workers.threadCtrl) := by
  constructor
  · exact writesConfined_iff file ps
  · intro h addresses params net
    have hfile : ∀ x ∈ fileWrites file, x.Harmless := fun x hx =>
      h x (List.mem_append_left _ hx)
    have hps : ∀ P ∈ ps, ∀ e ∈ P.entries, e.write.Harmless := by
      intro P hP e he
      have hmem : e ∈ entriesOf ps := List.mem_flatMap.mpr ⟨P, hP, he⟩
      exact h _ (List.mem_append_right _ (List.mem_map_of_mem hmem))
    obtain ⟨w, w', hw, hw', hctrl⟩ := startWorkers_inTableOnly hfile addresses
    refine ⟨w, w', hw, hw', hctrl, ?_⟩
    rintro c c' rfl rfl hseq n
    -- the prefix of a harmless input is harmless
    obtain ⟨d, d', hd, hd', hsame⟩ := run_inTableOnly
      (fun P hP => hps P (List.mem_of_mem_take hP)) ⟨hctrl, hseq⟩ params net
    exact ⟨d, d', hd, hd', hsame.threadCtrl⟩

/-- `writes_confined_iff` on a record for string 2 of `bus0.cs1` and a packet whose first entry is
for port 4, which is stored to `workers[1]`. -/
theorem writes_confined_sample :
    let file := ConfigFile.ofRecord 1 ⟨some 2, some 5, some 3⟩
    let P := ConfigPacket.encode 1 [⟨4, 0, 0, 7⟩, ⟨0, 3, 9, 2⟩] (by decide)
    ∃ w w', startWorkers file default = .ok w ∧
      startWorkers file.inTableOnly default = .ok w' ∧ w.threadCtrl = w'.threadCtrl ∧
      ∀ c c' : Controller, c.workers = w → c'.workers = w' →
        c.lastConfigSequence = c'.lastConfigSequence → ∀ n, ∃ d d',
          c.run default (([P].take n).map (ConfigPacket.action default)) = .ok d ∧
          c'.run default (([P].take n).map fun P => P.inTableOnly.action default) = .ok d' ∧
          d.workers.threadCtrl = d'.workers.threadCtrl := by
  intro file P
  refine (writes_confined_iff file [P]).2 ?_ default default default
  have hfile : fileWrites file = [⟨1, 2, ⟨3, 5⟩⟩] := by
    simp [fileWrites, file, ConfigFile.ofRecord, ConfigFile.records, recordWrites,
      List.finRange_succ]
  rw [inputWrites, entriesOf_encode, hfile]
  intro x hx
  simp only [List.map_cons, List.map_nil, List.singleton_append, List.mem_cons,
    List.not_mem_nil, or_false] at hx
  rcases hx with rfl | rfl | rfl
  · exact Or.inl (by decide)
  · exact Or.inr (by decide)
  · exact Or.inl (by decide)

/-- An entry for string 8 of port 0 is stored to `start_channel[0]`: from the same addresses and
state, the packet and the packet without its entry leave different starts. -/
theorem not_writes_confined_sample :
    ¬∀ (file : ConfigFile) (addresses : Addresses) (c : Controller) (w' : Workers),
      c.StartsFrom file → startWorkers file addresses = .ok c.workers →
      startWorkers file.inTableOnly addresses = .ok w' → ∀ ps : List ConfigPacket, ∃ d d',
        c.run default (ps.map (ConfigPacket.action default)) = .ok d ∧
        ({ c with workers := w' } : Controller).run default
          (ps.map fun P => P.inTableOnly.action default) = .ok d' ∧
        d.workers.threadCtrl = d'.workers.threadCtrl := by
  intro h
  let P := ConfigPacket.encode 1 [⟨0, 8, 0, 1⟩] (by decide)
  obtain ⟨c, hc, -⟩ := @exists_startsFrom default Workers.zero rfl
  obtain ⟨addresses, hworkers⟩ := hc.workers
  obtain ⟨d, d', hd, hd', hsame⟩ := h default addresses c c.workers hc hworkers hworkers [P]
  have hentries : P.entries = [⟨0, 8, 0, 1⟩] := ConfigPacket.entries_encode ..
  have hseq : P.sequenceNumber = 1 := ConfigPacket.sequenceNumber_encode ..
  -- with the entry, word 12 of `workers[0]` is 1
  have hword : d.workers 12 = 1 := by
    obtain ⟨w₁, hclear, -⟩ := Zcpp.storeAll_clearStores c.workers
    obtain ⟨i, j, hi, hj, hstore⟩ := Workers.storeAll_cellStores_of_nonneg (w := w₁)
      (p := 0) (s := 8) (by decide) (by decide) ⟨1, 0⟩
    obtain rfl : i = 12 := Fin.ext (Int.ofNat.inj hi)
    obtain rfl : j = 20 := Fin.ext (Int.ofNat.inj hj)
    have hstores : c.workers.storeAll (P.stores c.lastConfigSequence) =
        .ok (Function.update (Function.update w₁ 12 1) 20 0) := by
      rw [ConfigPacket.stores, hc.lastConfigSequence, hseq, if_pos (by decide),
        Workers.storeAll_append, hclear, Outcome.ok_bind, hentries, List.flatMap_singleton]
      exact hstore
    rw [List.map_singleton, Controller.run, List.foldlM_cons, ConfigPacket.step_action, hstores,
      Outcome.ok_bind, Outcome.pure_eq_ok, Outcome.ok_bind, List.foldlM_nil,
      Outcome.pure_eq_ok, Outcome.ok.injEq] at hd
    have hne : (12 : Fin 760) ≠ 20 := by decide
    simp only [← hd, Function.update_of_ne hne, Function.update_self]
  -- without it, word 12 is the cleared start of string 0
  have hword' : d'.workers 12 = 0 := by
    have hnil : P.inTableOnly.entries = [] := by
      rw [ConfigPacket.entries_inTableOnly, hentries]
      rfl
    have htable : ∀ Q ∈ [P.inTableOnly], Q.InTable := by
      refine List.forall_mem_singleton.mpr ?_
      rw [ConfigPacket.InTable, hnil]
      exact List.forall_mem_nil _
    have hnew : c.configView.sequence ≠ P.inTableOnly.sequenceNumber := by
      rw [ConfigPacket.sequenceNumber_inTableOnly, hseq]
      exact hc.lastConfigSequence.trans_ne (by decide)
    obtain ⟨hview, -⟩ := @configView_of_run [P.inTableOnly] htable default default c d' hd'
    have hcell := congrArg (fun v => v.mapping (0, 0)) hview
    rw [foldl_step_of_sameSequence (List.cons_ne_nil _ _) (List.forall_mem_singleton.mpr rfl),
      if_neg hnew, entriesOf, List.flatMap_singleton, hnil] at hcell
    exact congrArg Cell.startChannel hcell
  have hne : d.workers 12 = d'.workers 12 := congrFun hsame 12
  rw [hword, hword'] at hne
  exact absurd hne (by decide)

end PiPixelController
