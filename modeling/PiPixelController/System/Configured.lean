import PiPixelController.System.Confinement
import PiPixelController.System.Isolation

/-!
# The two ways to configure

The mapping comes from the records of the file or from configuration packets. A record and an
entry with the same port, string, start and number of channels mean the same, and it does not show
in any later frame which of the two it was.

* `ConfigFile.mapping_eq` — the mapping of a file is the last entry for each cell;
* `mapping_of_configs` — so is the mapping after packets with a new sequence number;
* `foldl_step_congr` — what the next configuration leaves does not depend on how the current one
  came about;
* `frames_of_configured` — the frames are the same.
-/

namespace PiPixelController

open CSemantics WriteLog

/-! ### The file as entries -/

/-- The entry with the contents of a record of `bus0.csN`; none when a field is missing. -/
def ChannelRecord.entry? (cs : Fin 4) (r : ChannelRecord) : Option PortConfig :=
  match r.string, r.start, r.channels with
  | some ledStr, some startChannel, some channelCount =>
      some ⟨BitVec.ofNat 8 cs, ledStr.setWidth 8, startChannel, channelCount⟩
  | _, _, _ => none

namespace ConfigFile

/-- The entries with the contents of the records, in the order of the loops. -/
def entries (file : ConfigFile) : List PortConfig :=
  (List.finRange 4).flatMap fun cs => (file.records cs).filterMap (ChannelRecord.entry? cs)

/-- Every record is for one of the eight strings. -/
def InTable (file : ConfigFile) : Prop := ∀ cs, ∀ r ∈ file.records cs, r.InTable

end ConfigFile

/-- A string of the table, as an `int` and in the byte of an entry. -/
theorem toNat_setWidth_of_inTable {ledStr : BitVec 32} (h : 0 ≤ ledStr.toInt ∧ ledStr.toInt < 8) :
    ledStr.toInt = (ledStr.setWidth 8).toNat ∧ (ledStr.setWidth 8).toNat < 8 := by
  have hnat : ledStr.toInt = ledStr.toNat := by
    rw [← toNat_toInt_of_nonneg h.1, Int.toNat_of_nonneg h.1]
  rw [BitVec.toNat_setWidth, Nat.mod_eq_of_lt (by omega)]
  omega

namespace ChannelRecord

variable {cs : Fin 4} {r : ChannelRecord}

theorem inTable_of_entry? (h : r.InTable) {e : PortConfig} (he : r.entry? cs = some e) :
    e.InTable := by
  rcases r with ⟨_ | ledStr, _ | startChannel, _ | channelCount⟩ <;> cases he
  have hledStr : 0 ≤ ledStr.toInt ∧ ledStr.toInt < 8 := by simpa [InTable] using h
  refine ⟨?_, (toNat_setWidth_of_inTable hledStr).2⟩
  simp only [BitVec.toNat_ofNat]
  omega

/-- The record makes the assignments of its entry. -/
theorem recordStores_eq (h : r.InTable) :
    recordStores cs r = (r.entry? cs).toList.flatMap PortConfig.stores := by
  rcases r with ⟨_ | ledStr, _ | startChannel, _ | channelCount⟩ <;> try rfl
  have hledStr : 0 ≤ ledStr.toInt ∧ ledStr.toInt < 8 := by simpa [InTable] using h
  have hport : (BitVec.ofNat 8 cs.val).toNat = cs.val := by
    rw [BitVec.toNat_ofNat]
    omega
  simp only [recordStores, entry?, Option.toList_some, List.flatMap_singleton, PortConfig.stores,
    PortConfig.cell, hport, (toNat_setWidth_of_inTable hledStr).1]

end ChannelRecord

namespace ConfigFile

variable {file : ConfigFile}

theorem InTable.entries (h : file.InTable) : ∀ e ∈ file.entries, e.InTable := by
  intro e he
  obtain ⟨cs, -, hcs⟩ := List.mem_flatMap.mp he
  obtain ⟨r, hr, hre⟩ := List.mem_filterMap.mp hcs
  exact ChannelRecord.inTable_of_entry? (h cs r hr) hre

/-- The assignments for the records are those for the entries. -/
theorem InTable.fileStores_eq (h : file.InTable) :
    fileStores file = file.entries.flatMap PortConfig.stores := by
  rw [fileStores, ConfigFile.entries, List.flatMap_assoc]
  refine List.flatMap_congr fun cs _ => ?_
  rw [List.filterMap_eq_flatMap_toList, List.flatMap_assoc]
  exact List.flatMap_congr fun r hr => ChannelRecord.recordStores_eq (h cs r hr)

/-- Each cell holds what the last entry for it asks for, `(0, 0)` if there is none. -/
theorem InTable.mapping_eq (h : file.InTable) (cell : Fin 4 × Fin 8) :
    file.mapping cell = ((lastEntry file.entries cell).map PortConfig.cell).getD ⟨0, 0⟩ := by
  -- replaying the entries over the cleared table gives the last one for each cell
  obtain ⟨w, hw, hmapping, -⟩ := Workers.zero.storeAll_entries file.entries h.entries
  rw [← h.fileStores_eq] at hw
  obtain ⟨c, hc, hcw⟩ := exists_startsFrom hw
  rw [← hc.mapping_eq, hcw, hmapping, replay_apply, latest_map_patch]
  rfl

end ConfigFile

/-! ### Packets in the place of the file -/

/-- After packets with a new sequence number and the entries of the file, the mapping is that of
the file. -/
theorem mapping_of_configs {file : ConfigFile} (hfile : file.InTable) {ps : List ConfigPacket}
    (hne : ps ≠ []) {q : BitVec 32} (hps : ∀ P ∈ ps, P.sequenceNumber = q)
    (hentries : entriesOf ps = file.entries) {v : ConfigView} (hv : v.sequence ≠ q) :
    (ps.foldl ConfigView.step v).mapping = file.mapping := by
  funext cell
  rw [foldl_step_of_sameSequence hne hps, if_neg hv, hentries, hfile.mapping_eq]

/-- Two views of one mapping stay so when the next packet is new to both. -/
theorem foldl_step_congr {ps : List ConfigPacket} {v v' : ConfigView}
    (hmapping : v.mapping = v'.mapping)
    (hnew : ∀ P ∈ ps.head?, v.sequence ≠ P.sequenceNumber ∧ v'.sequence ≠ P.sequenceNumber) :
    (ps.foldl ConfigView.step v).mapping = (ps.foldl ConfigView.step v').mapping := by
  cases ps with
  | nil => exact hmapping
  | cons P ps =>
      obtain ⟨hv, hv'⟩ := hnew P rfl
      -- the packet is written over an empty mapping in both
      have hstep : v.step P = v'.step P := by
        rw [ConfigView.step, ConfigView.step, ConfigView.base, ConfigView.base, if_neg hv,
          if_neg hv']
      rw [List.foldl_cons, List.foldl_cons, hstep]

section

variable {params : Params} {c₀ c₀' : Controller}

/-- Configurations store no pixels. -/
theorem lastByte_filter_config (setup es : List (Event params)) :
    lastByte (setup.filter (fun e => e.config?.isNone) ++ es) = lastByte (setup ++ es) := by
  funext i
  suffices hlatest : latest ((setup.filter fun e => e.config?.isNone).map Event.patch) i =
      latest (setup.map Event.patch) i by
    rw [lastByte, lastByte, List.map_append, List.map_append, latest_append, latest_append, hlatest]
  induction setup with
  | nil => rfl
  | cons e setup ih =>
      rw [List.map_cons, latest_cons, ← ih]
      cases e with
      -- the event that is left out stores nothing
      | config net P h => simp [Event.config?, Event.patch]
      | acn P => rw [List.filter_cons_of_pos rfl, List.map_cons, latest_cons]
      | data net P => rw [List.filter_cons_of_pos rfl, List.map_cons, latest_cons]
      | refresh rets => rw [List.filter_cons_of_pos rfl, List.map_cons, latest_cons]

theorem configs_filter_config (setup es : List (Event params)) :
    configs (setup.filter (fun e => e.config?.isNone) ++ es) = configs es := by
  have hnil : configs (setup.filter fun e => e.config?.isNone) = [] := by
    refine List.filterMap_eq_nil_iff.mpr fun e he => ?_
    simpa using (List.mem_filter.mp he).2
  rw [configs, List.filterMap_append, ← configs, hnil]
  rfl

/-- For every configuration file whose records name strings of the table, and every history
`setup` of packets and refreshes whose configuration packets, in any number, have together the
entries of the file and one new sequence number: a controller that starts from the file and
receives `setup` without its configurations, and a controller that starts from anything else with
as many ports and receives `setup`, send the same frames after every further history, if its first
configuration, should there be one, is new to both and every refresh of both is packable. -/
theorem frames_of_configured (params : Params)
    (hrange : params.acn.universeEnd.toInt - params.acn.universeStart.toInt < 48)
    {file : ConfigFile} (hfile : file.InTable) (hc : c₀.StartsFrom file)
    (hzero : c₀'.pixelBuffer = fun _ => 0) (hports : c₀'.workers.pixelPorts = file.pixelPortCount)
    {setup es : List (Event params)} (hne : configs setup ≠ []) {q : BitVec 32}
    (hq : ∀ P ∈ configs setup, P.sequenceNumber = q) (hnew : c₀'.lastConfigSequence ≠ q)
    (hentries : entriesOf (configs setup) = file.entries)
    (hnext : ∀ P ∈ (configs es).head?, P.sequenceNumber ≠ 0 ∧ P.sequenceNumber ≠ q)
    {rets rets' : Fin 4 → ℤ}
    (hpack : RefreshesPackable c₀
      (setup.filter (fun e => e.config?.isNone) ++ es ++ [.refresh rets]))
    (hpack' : RefreshesPackable c₀' (setup ++ es ++ [.refresh rets'])) :
    ∃ c d events c' d' events',
      c₀.run params ((setup.filter (fun e => e.config?.isNone) ++ es).map Event.action) = .ok c ∧
      workerRefresh rets c = .ok (d, events) ∧
      c₀'.run params ((setup ++ es).map Event.action) = .ok c' ∧
      workerRefresh rets' c' = .ok (d', events') ∧ frames events = frames events' := by
  obtain ⟨c, d, events, hrun, hfollows, -, hrefresh, hframes⟩ :=
    exists_refresh hrange hc.pixelBuffer hpack
  obtain ⟨c', d', events', hrun', hfollows', -, hrefresh', hframes'⟩ :=
    exists_refresh hrange hzero hpack'
  refine ⟨c, d, events, c', d', events', hrun, hrefresh, hrun', hrefresh', ?_⟩
  rw [hframes, hframes']
  refine refreshFrames_congr ?_ ?_ ?_
  · rw [hfollows.pixels, hfollows'.pixels, lastByte_filter_config]
  · -- after `setup` both have the mapping of the file
    have hsetup : c₀.configView.mapping =
        ((configs setup).foldl ConfigView.step c₀'.configView).mapping :=
      hc.mapping_eq.trans (mapping_of_configs hfile hne hq hentries hnew).symm
    have hview := congrArg ConfigView.mapping hfollows.config
    have hview' := congrArg ConfigView.mapping hfollows'.config
    rw [configs_filter_config] at hview
    rw [configs, List.filterMap_append, List.foldl_append] at hview'
    refine hview.trans ((foldl_step_congr hsetup fun P hP => ?_).trans hview'.symm)
    obtain ⟨hzero, hPq⟩ := hnext P hP
    rw [foldl_step_sequence hne, hq _ (List.getLast_mem hne)]
    exact ⟨fun h => hzero (h.symm.trans hc.lastConfigSequence), hPq.symm⟩
  · rw [hfollows.pixelPorts, hfollows'.pixelPorts, hports, hc.pixelPorts_eq]

end

/-- The file with one record, for string 0 of a port. -/
def oneRecord (cs : Fin 4) : ConfigFile := ConfigFile.ofRecord cs ⟨some 0, some 5, some 2⟩

/-- The packet with the entry of the record. -/
def oneEntry : ConfigPacket := ConfigPacket.encode 1 [⟨0, 0, 5, 2⟩] (by decide)

theorem inTable_oneRecord : (oneRecord 0).InTable := by
  rw [ConfigFile.InTable]
  decide

theorem inTable_oneEntry : oneEntry.InTable := ConfigPacket.inTable_encode.mpr (by decide)

theorem packable_oneRecord : Packable 4 (oneRecord 0).mapping := by
  have hmapping : (oneRecord 0).mapping = fun cell =>
      ((lastEntry (oneRecord 0).entries cell).map PortConfig.cell).getD ⟨0, 0⟩ :=
    funext inTable_oneRecord.mapping_eq
  rw [hmapping]
  decide

/-- `frames_of_configured` for one record and a packet with its entry, received after pixel data. -/
theorem frames_of_configured_sample :
    let c₀' : Controller :=
      { (default : Controller) with workers := Function.update Workers.zero 0 4 }
    let data : Action := .zcpp default (some sampleData.datagram)
    ∃ c₀ : Controller, c₀.StartsFrom (oneRecord 0) ∧
      ∃ c d events c' d' events', c₀.run default [data] = .ok c ∧
        workerRefresh (fun _ => 0) c = .ok (d, events) ∧
        c₀'.run default [data, oneEntry.action default] = .ok c' ∧
        workerRefresh (fun _ => 0) c' = .ok (d', events') ∧ frames events = frames events' := by
  intro c₀' data
  obtain ⟨w, hw, -⟩ :=
    Workers.zero.storeAll_entries (oneRecord 0).entries inTable_oneRecord.entries
  rw [← inTable_oneRecord.fileStores_eq] at hw
  obtain ⟨c₀, hc, -⟩ := exists_startsFrom hw
  let setup : List (Event default) :=
    [.data default sampleData, .config default oneEntry inTable_oneEntry]
  have hq : ∀ P ∈ configs setup, P.sequenceNumber = 1 := by
    refine List.forall_mem_singleton.mpr ?_
    exact (ConfigPacket.sequenceNumber_encode ..).trans (by decide)
  have hentries : entriesOf (configs setup) = (oneRecord 0).entries :=
    entriesOf_encode.trans (by decide)
  have hnew : c₀'.lastConfigSequence ≠ 1 := by decide
  have hsetup : c₀'.mappingAfter setup = (oneRecord 0).mapping :=
    (foldl_step_mapping _ c₀'.configView).symm.trans
      (mapping_of_configs inTable_oneRecord (List.cons_ne_nil _ _) hq hentries hnew)
  refine ⟨c₀, hc, ?_⟩
  refine @frames_of_configured c₀ c₀' default (by decide) (oneRecord 0) inTable_oneRecord hc rfl
    (by decide) setup [] (List.cons_ne_nil _ _) 1 hq hnew hentries (by simp [configs])
    (fun _ => 0) (fun _ => 0) ?_ ?_
  · refine refreshesPackable_of_config_none (by simp [setup, Event.config?]) ?_
    rw [hc.pixelPorts_eq, hc.mapping_eq]
    exact packable_oneRecord
  · intro pre rets post hsplit
    -- the refresh is the last event
    rcases pre with _ | ⟨e, _ | ⟨e', _ | ⟨e'', pre⟩⟩⟩
    · cases hsplit
    · cases hsplit
    · cases hsplit
      exact hsetup ▸ packable_oneRecord
    · simp [setup] at hsplit

end PiPixelController
