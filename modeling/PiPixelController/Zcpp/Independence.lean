import Mathlib.Data.Finset.Insert
import PiPixelController.Zcpp.ConfigRuns

/-!
# What the received mapping does not depend on

Two results about sequences of complete configuration packets with entries in the table.

* `sameMapping_iff` — the mapping after start-up and the packets is independent of the
  configuration file exactly when some packet carries a non-zero sequence number, or every cell
  has an entry. `last_config_sequence` is initially 0, so a configuration that is sent under
  sequence number 0 clears nothing and mixes with the file.
* `run_config_redelivery` — the packets of one configuration may arrive in any order and any
  number of times, and a packet that arrives again changes nothing at any point of the handler.
-/

namespace PiPixelController

open CSemantics WriteLog

/-! ### The configuration file -/

/-- The mapping after start-up and the packets is the same whatever the configuration file. -/
def SameMapping (net : Network) (ps : List ConfigPacket) : Prop :=
  ∀ (params₁ params₂ : Params) (file₁ file₂ : ConfigFile) (c₁ c₂ : Controller),
    c₁.StartsFrom file₁ → c₂.StartsFrom file₂ →
    ∃ c₁' c₂', c₁.run params₁ (ps.map (ConfigPacket.action net)) = .ok c₁' ∧
      c₂.run params₂ (ps.map (ConfigPacket.action net)) = .ok c₂' ∧
      c₁'.workers.mapping = c₂'.workers.mapping

/-- For every cell and contents some configuration file starts with them in that cell. -/
theorem exists_startsFrom_cell (k : Fin 4 × Fin 8) (cell : Cell) :
    ∃ file, ∃ c : Controller, c.StartsFrom file ∧ c.workers.mapping k = cell := by
  let r : ChannelRecord := ⟨some (BitVec.ofNat 32 k.2), some cell.startChannel,
    some cell.channelCount⟩
  have hstring : (BitVec.ofNat 32 k.2).toInt = k.2 := by
    rw [BitVec.toInt_eq_toNat_of_lt] <;> rw [BitVec.toNat_ofNat] <;> omega
  -- its only record stores the cell into the cleared `workers[0]`
  have hload : loadChannels (ConfigFile.ofRecord k.1 r) =
      .ok (Workers.zero.setCell k cell) := by
    rw [loadChannels, fileStores_ofRecord]
    change Workers.zero.storeAll (cellStores k.1 (BitVec.ofNat 32 k.2).toInt cell) = _
    rw [hstring]
    exact Workers.storeAll_cellStores k cell
  obtain ⟨c, hc, hmap⟩ := exists_startsFrom hload
  refine ⟨_, c, hc, ?_⟩
  rw [hmap, Workers.mapping_setCell, Function.update_self]

/-- When no packet leaves sequence number 0, a cell without an entry keeps what the file put
there. -/
theorem mapping_of_zeroSequence {ps : List ConfigPacket} {k : Fin 4 × Fin 8}
    (hzero : ∀ P ∈ ps, P.sequenceNumber = 0) (hk : ∀ e ∈ entriesOf ps, ¬e.IsFor k)
    {v : ConfigView} (hv : v.sequence = 0) :
    (ps.foldl ConfigView.step v).mapping k = v.mapping k := by
  have hnone : lastEntry (entriesOf ps) k = none := by
    rw [← Option.not_isSome_iff_eq_none, lastEntry_isSome_iff]
    rintro ⟨e, he, hek⟩
    exact hk e he hek
  rw [foldl_step_of_noChange (hv.symm ▸ forall_not_changesAt_iff.mpr hzero), replay_apply,
    latest_map_packet_patch, hnone]
  rfl

/-- A cell without an entry tells two configuration files apart when all packets carry sequence
number 0. -/
theorem not_sameMapping_of_zeroSequence {ps : List ConfigPacket} {k : Fin 4 × Fin 8}
    (htable : ∀ P ∈ ps, P.InTable) (hzero : ∀ P ∈ ps, P.sequenceNumber = 0)
    (hk : ∀ e ∈ entriesOf ps, ¬e.IsFor k) (net : Network) : ¬SameMapping net ps := by
  intro hsame
  -- two files that differ in the cell
  obtain ⟨file₁, c₁, hc₁, hcell₁⟩ := exists_startsFrom_cell k ⟨0, 0⟩
  obtain ⟨file₂, c₂, hc₂, hcell₂⟩ := exists_startsFrom_cell k ⟨1, 0⟩
  obtain ⟨c₁', c₂', hrun₁, hrun₂, hmap⟩ := hsame default default file₁ file₂ c₁ c₂ hc₁ hc₂
  have hkeep : ∀ {c c' : Controller}, c.lastConfigSequence = 0 →
      c.run default (ps.map (ConfigPacket.action net)) = .ok c' →
      c'.workers.mapping k = c.workers.mapping k := by
    intro c c' hseq hrun
    obtain ⟨hview, -⟩ := configView_of_run htable hrun
    exact (congrArg (fun v => v.mapping k) hview).trans (mapping_of_zeroSequence hzero hk hseq)
  have hcell := congrFun hmap k
  rw [hkeep hc₁.lastConfigSequence hrun₁, hkeep hc₂.lastConfigSequence hrun₂, hcell₁,
    hcell₂] at hcell
  exact absurd hcell (by decide)

/-- When some packet carries a non-zero sequence number, or every cell has an entry, the
mapping depends on the packets alone. -/
theorem foldl_step_mapping_congr {ps : List ConfigPacket}
    (h : (∃ P ∈ ps, P.sequenceNumber ≠ 0) ∨ ∀ k, ∃ e ∈ entriesOf ps, e.IsFor k)
    {v₁ v₂ : ConfigView} (h₁ : v₁.sequence = 0) (h₂ : v₂.sequence = 0) :
    (ps.foldl ConfigView.step v₁).mapping = (ps.foldl ConfigView.step v₂).mapping := by
  rw [foldl_step_mapping, foldl_step_mapping, h₁, h₂]
  funext k
  rw [inForce, inForce]
  cases hlast : lastChange 0 ps with
  | some i => rfl
  | none =>
      -- all sequence numbers are 0, so the second alternative covers the cell
      have hcover : (lastEntry (entriesOf ps) k).isSome := by
        rcases h with ⟨P, hP, hne⟩ | h
        · have hzero := forall_not_changesAt_iff.mp (lastChange_eq_none_iff.mp hlast)
          exact absurd (hzero P hP) hne
        · exact (lastEntry_isSome_iff _ k).mpr (h k)
      obtain ⟨e, he⟩ := Option.isSome_iff_exists.mp hcover
      simp only [he, Option.map_some, Option.getD_some]

/-- The mapping after start-up and the packets is independent of the configuration file exactly
when some packet carries a non-zero sequence number, or every cell has an entry. -/
theorem sameMapping_iff {ps : List ConfigPacket} (htable : ∀ P ∈ ps, P.InTable)
    (net : Network) :
    SameMapping net ps ↔
      (∃ P ∈ ps, P.sequenceNumber ≠ 0) ∨ ∀ k, ∃ e ∈ entriesOf ps, e.IsFor k := by
  constructor
  · intro hsame
    by_contra hcon
    push Not at hcon
    obtain ⟨hzero, k, hk⟩ := hcon
    exact not_sameMapping_of_zeroSequence htable hzero hk net hsame
  · intro h params₁ params₂ file₁ file₂ c₁ c₂ hc₁ hc₂
    obtain ⟨c₁', hrun₁, hview₁, -⟩ := run_config htable params₁ net c₁
    obtain ⟨c₂', hrun₂, hview₂, -⟩ := run_config htable params₂ net c₂
    refine ⟨c₁', c₂', hrun₁, hrun₂, ?_⟩
    have h₁ : c₁.configView.sequence = 0 := hc₁.lastConfigSequence
    have h₂ : c₂.configView.sequence = 0 := hc₂.lastConfigSequence
    calc c₁'.workers.mapping
        = (ps.foldl ConfigView.step c₁.configView).mapping := congrArg ConfigView.mapping hview₁
      _ = (ps.foldl ConfigView.step c₂.configView).mapping := foldl_step_mapping_congr h h₁ h₂
      _ = c₂'.workers.mapping := (congrArg ConfigView.mapping hview₂).symm

/-- `sameMapping_iff` on two packets with entries: the first one carries the initial sequence
number 0, the second one another. -/
theorem sameMapping_sample :
    SameMapping default
      [ConfigPacket.encode 0 [⟨0, 0, 5, 3⟩] (by decide),
        ConfigPacket.encode 1 [⟨0, 0, 9, 6⟩, ⟨3, 7, 30, 4⟩] (by decide)] := by
  have htable : ∀ P ∈ [ConfigPacket.encode 0 [⟨0, 0, 5, 3⟩] (by decide),
      ConfigPacket.encode 1 [⟨0, 0, 9, 6⟩, ⟨3, 7, 30, 4⟩] (by decide)], P.InTable :=
    List.forall_mem_cons.mpr ⟨ConfigPacket.inTable_encode.mpr (by decide),
      List.forall_mem_singleton.mpr (ConfigPacket.inTable_encode.mpr (by decide))⟩
  refine (sameMapping_iff htable default).mpr
    (Or.inl ⟨_, List.mem_cons_of_mem _ (List.mem_singleton_self _), ?_⟩)
  rw [ConfigPacket.sequenceNumber_encode]
  decide

/-- A configuration without entries under sequence number 0 leaves the mapping of the file. -/
theorem not_sameMapping_zero :
    ¬∀ ps : List ConfigPacket, ps ≠ [] → (∀ P ∈ ps, P.InTable) → SameMapping default ps := by
  intro h
  let P := ConfigPacket.encode 0 [] (by decide)
  have htable : ∀ P' ∈ [P], P'.InTable :=
    List.forall_mem_singleton.mpr (ConfigPacket.inTable_encode.mpr (List.forall_mem_nil _))
  have hzero : ∀ P' ∈ [P], P'.sequenceNumber = 0 :=
    List.forall_mem_singleton.mpr (ConfigPacket.sequenceNumber_encode ..)
  have hnone : ∀ e ∈ entriesOf [P], ¬e.IsFor (0, 0) := by
    rw [entriesOf_encode]
    exact List.forall_mem_nil _
  exact not_sameMapping_of_zeroSequence htable hzero hnone default (h [P] (by simp) htable)

/-! ### Redelivery -/

/-- The packets of one configuration: a common sequence number, entries in the table, and no
cell with two entries anywhere in the set. -/
structure IsConfiguration (S : Finset ConfigPacket) : Prop where
  sameSequence : ∀ P ∈ S, ∀ P' ∈ S, P.sequenceNumber = P'.sequenceNumber
  inTable : ∀ P ∈ S, P.InTable
  distinct : ∀ P ∈ S, ∀ P' ∈ S, ∀ (i i' : ℕ) (e e' : PortConfig),
    P.entries[i]? = some e → P'.entries[i']? = some e' → e.port = e'.port →
    e.string = e'.string → P = P' ∧ i = i'

/-- A delivery sequence that contains packets of `S` only, and each of them at least once. -/
def IsDelivery (S : Finset ConfigPacket) (ds : List ConfigPacket) : Prop :=
  ∀ P, P ∈ ds ↔ P ∈ S

theorem mem_entriesOf {ps : List ConfigPacket} {e : PortConfig} :
    e ∈ entriesOf ps ↔ ∃ P ∈ ps, e ∈ P.entries :=
  List.mem_flatMap

section

variable {S : Finset ConfigPacket} {ds ds' : List ConfigPacket}

theorem IsDelivery.append (h : IsDelivery S ds) (hre : ∀ P ∈ ds', P ∈ S) :
    IsDelivery S (ds ++ ds') := by
  intro P
  rw [List.mem_append, h P]
  exact ⟨fun hP => hP.elim id (hre P), Or.inl⟩

theorem IsDelivery.mem_entriesOf_iff (h : IsDelivery S ds) (h' : IsDelivery S ds')
    (e : PortConfig) : e ∈ entriesOf ds ↔ e ∈ entriesOf ds' := by
  rw [mem_entriesOf, mem_entriesOf]
  simp only [h _, h' _]

/-- Entries of a delivery for one cell are equal. -/
theorem IsConfiguration.eq_of_isFor (hS : IsConfiguration S) (h : IsDelivery S ds)
    {e e' : PortConfig} (he : e ∈ entriesOf ds) (he' : e' ∈ entriesOf ds) {k : Fin 4 × Fin 8}
    (hk : e.IsFor k) (hk' : e'.IsFor k) : e = e' := by
  obtain ⟨P, hP, heP⟩ := mem_entriesOf.mp he
  obtain ⟨P', hP', heP'⟩ := mem_entriesOf.mp he'
  -- two entries for one cell have the same port and string, so they are at one position
  obtain ⟨i, hi⟩ := List.mem_iff_getElem?.mp heP
  obtain ⟨i', hi'⟩ := List.mem_iff_getElem?.mp heP'
  have hport : e.port = e'.port := BitVec.eq_of_toNat_eq (hk.1.trans hk'.1.symm)
  have hstring : e.string = e'.string := BitVec.eq_of_toNat_eq (hk.2.trans hk'.2.symm)
  obtain ⟨rfl, rfl⟩ :=
    hS.distinct P ((h P).mp hP) P' ((h P').mp hP') i i' e e' hi hi' hport hstring
  exact Option.some.inj (hi.symm.trans hi')

/-- The writes of a delivery never disagree. -/
theorem IsConfiguration.consistent (hS : IsConfiguration S) (h : IsDelivery S ds) :
    Consistent ((entriesOf ds).map PortConfig.patch) := by
  intro f hf g hg k v w hv hw
  obtain ⟨e, he, rfl⟩ := List.mem_map.mp hf
  obtain ⟨e', he', rfl⟩ := List.mem_map.mp hg
  obtain ⟨hk, rfl⟩ := PortConfig.patch_eq_some_iff.mp hv
  obtain ⟨hk', rfl⟩ := PortConfig.patch_eq_some_iff.mp hw
  rw [hS.eq_of_isFor h he he' hk hk']

/-- Every entry of a delivery is the last one for its cell. -/
theorem IsConfiguration.lastEntry_eq (hS : IsConfiguration S) (h : IsDelivery S ds)
    {e : PortConfig} (he : e ∈ entriesOf ds) {k : Fin 4 × Fin 8} (hk : e.IsFor k) :
    (lastEntry (entriesOf ds) k).map PortConfig.cell = some e.cell := by
  rw [← latest_map_patch, (hS.consistent h).latest_eq_some_iff]
  exact ⟨e.patch, List.mem_map_of_mem he, PortConfig.patch_of_isFor hk⟩

/-- Two deliveries of one configuration have the same last entries. -/
theorem IsConfiguration.lastEntry_congr (hS : IsConfiguration S) (h : IsDelivery S ds)
    (h' : IsDelivery S ds') (k : Fin 4 × Fin 8) :
    (lastEntry (entriesOf ds) k).map PortConfig.cell =
      (lastEntry (entriesOf ds') k).map PortConfig.cell := by
  rw [← latest_map_patch, ← latest_map_patch]
  refine congrFun (latest_eq_of_forall_mem_iff (hS.consistent h) fun f => ?_) k
  simp only [List.mem_map, h.mem_entriesOf_iff h']

theorem IsDelivery.ne_nil (h : IsDelivery S ds) {P : ConfigPacket} (hP : P ∈ S) : ds ≠ [] :=
  List.ne_nil_of_mem ((h P).mpr hP)

theorem IsConfiguration.sequenceNumber_eq (hS : IsConfiguration S) (h : IsDelivery S ds)
    {P : ConfigPacket} (hP : P ∈ S) : ∀ Q ∈ ds, Q.sequenceNumber = P.sequenceNumber :=
  fun Q hQ => hS.sameSequence Q ((h Q).mp hQ) P hP

/-- The mapping after a delivery does not depend on its order or multiplicities. -/
theorem IsConfiguration.foldl_step_congr (hS : IsConfiguration S) (h : IsDelivery S ds)
    (h' : IsDelivery S ds') (v : ConfigView) :
    (ds.foldl ConfigView.step v).mapping = (ds'.foldl ConfigView.step v).mapping := by
  rcases S.eq_empty_or_nonempty with rfl | ⟨P, hP⟩
  · -- the only delivery of no packets is the empty one
    have hnil : ∀ {ds : List ConfigPacket}, IsDelivery ∅ ds → ds = [] := fun h =>
      List.eq_nil_iff_forall_not_mem.mpr fun P hP => Finset.notMem_empty P ((h P).mp hP)
    rw [hnil h, hnil h']
  · -- both write the same last entries over the same base
    funext k
    rw [foldl_step_of_sameSequence (h.ne_nil hP) (hS.sequenceNumber_eq h hP),
      foldl_step_of_sameSequence (h'.ne_nil hP) (hS.sequenceNumber_eq h' hP),
      hS.lastEntry_congr h h' k]

/-- After a delivery every entry is held by its cell. -/
theorem IsConfiguration.foldl_step_holds (hS : IsConfiguration S) (h : IsDelivery S ds)
    {P : ConfigPacket} (hP : P ∈ S) {e : PortConfig} (he : e ∈ P.entries) {k : Fin 4 × Fin 8}
    (hk : e.IsFor k) (v : ConfigView) : (ds.foldl ConfigView.step v).mapping k = e.cell := by
  have hmem : e ∈ entriesOf ds := mem_entriesOf.mpr ⟨P, (h P).mpr hP, he⟩
  rw [foldl_step_of_sameSequence (h.ne_nil hP) (hS.sequenceNumber_eq h hP),
    hS.lastEntry_eq h hmem hk, Option.getD_some]

end

/-- Assignments of values the words already hold change nothing. -/
theorem Workers.storeAll_of_held {w : Workers} {sts : List WordStore}
    (h : ∀ st ∈ sts, w.store st = .ok w) : w.storeAll sts = .ok w := by
  induction sts with
  | nil => rfl
  | cons st sts ih =>
      rw [storeAll_cons, h st List.mem_cons_self, Outcome.ok_bind]
      exact ih fun st' hst' => h st' (List.mem_cons_of_mem st hst')

/-- The two assignments of an entry whose cell already holds it change nothing. -/
theorem PortConfig.store_of_held {e : PortConfig} {k : Fin 4 × Fin 8} (hk : e.IsFor k)
    {w : Workers} (hw : w.mapping k = e.cell) : ∀ st ∈ e.stores, w.store st = .ok w := by
  have hcount : w (Workers.channelCountIdx k) = e.cell.channelCount :=
    congrArg Cell.channelCount hw
  have hstart : w (Workers.startChannelIdx k) = e.cell.startChannel :=
    congrArg Cell.startChannel hw
  intro st hst
  rw [hk.stores_eq, cellStores, List.mem_cons, List.mem_singleton] at hst
  rcases hst with rfl | rfl
  · rw [Workers.store_channelCount, ← hcount, Function.update_eq_self]
  · rw [Workers.store_startChannel, ← hstart, Function.update_eq_self]

/-- The packets of one configuration may be delivered in any order and any number of times: the
mapping is the same. Once all are delivered, further packets of the configuration leave the
mapping as it is, and while the handler works on one more, no assignment it makes changes
anything: after every prefix of them `workers` is what it was. -/
theorem run_config_redelivery {S : Finset ConfigPacket} (hS : IsConfiguration S)
    (params : Params) (net : Network) (c : Controller) :
    (∀ ds ds', IsDelivery S ds → IsDelivery S ds' →
      ∃ c₁ c₂, c.run params (ds.map (ConfigPacket.action net)) = .ok c₁ ∧
        c.run params (ds'.map (ConfigPacket.action net)) = .ok c₂ ∧
        c₁.workers.mapping = c₂.workers.mapping) ∧
    ∀ ds re : List ConfigPacket, IsDelivery S ds → (∀ P ∈ re, P ∈ S) →
      ∃ c₁ c₂, c.run params (ds.map (ConfigPacket.action net)) = .ok c₁ ∧
        c₁.run params (re.map (ConfigPacket.action net)) = .ok c₂ ∧
        c₂.workers.mapping = c₁.workers.mapping ∧
        ∀ P ∈ S, ∀ n, c₂.workers.storeAll ((P.stores c₂.lastConfigSequence).take n) =
          .ok c₂.workers := by
  have htable : ∀ {ds}, IsDelivery S ds → ∀ P ∈ ds, P.InTable :=
    fun h P hP => hS.inTable P ((h P).mp hP)
  constructor
  · intro ds ds' h h'
    obtain ⟨c₁, hrun₁, hview₁, -⟩ := run_config (htable h) params net c
    obtain ⟨c₂, hrun₂, hview₂, -⟩ := run_config (htable h') params net c
    refine ⟨c₁, c₂, hrun₁, hrun₂, ?_⟩
    calc c₁.workers.mapping
        = (ds.foldl ConfigView.step c.configView).mapping := congrArg ConfigView.mapping hview₁
      _ = (ds'.foldl ConfigView.step c.configView).mapping := hS.foldl_step_congr h h' _
      _ = c₂.workers.mapping := (congrArg ConfigView.mapping hview₂).symm
  · intro ds re h hre
    obtain ⟨c₁, hrun₁, hview₁, -⟩ := run_config (htable h) params net c
    obtain ⟨c₂, hrun₂, hview₂, -⟩ :=
      run_config (fun P hP => hS.inTable P (hre P hP)) params net c₁
    -- the redelivered packets only make the delivery longer
    have happend : IsDelivery S (ds ++ re) := h.append hre
    have hview : c₂.configView = (ds ++ re).foldl ConfigView.step c.configView := by
      rw [hview₂, hview₁, List.foldl_append]
    refine ⟨c₁, c₂, hrun₁, hrun₂, ?_, fun P hP n => ?_⟩
    · calc c₂.workers.mapping
          = ((ds ++ re).foldl ConfigView.step c.configView).mapping :=
            congrArg ConfigView.mapping hview
        _ = (ds.foldl ConfigView.step c.configView).mapping :=
            hS.foldl_step_congr happend h _
        _ = c₁.workers.mapping := (congrArg ConfigView.mapping hview₁).symm
    · -- the sequence number is recorded already, so the handler does not clear
      have hseq : c₂.lastConfigSequence = P.sequenceNumber := by
        have hlast := congrArg ConfigView.sequence hview
        rw [foldl_step_sequence (happend.ne_nil hP)] at hlast
        exact hlast.trans (hS.sequenceNumber_eq happend hP _ (List.getLast_mem _))
      apply Workers.storeAll_of_held
      intro st hst
      have hst := List.mem_of_mem_take hst
      rw [ConfigPacket.stores, if_neg (not_not.mpr hseq), List.nil_append,
        List.mem_flatMap] at hst
      obtain ⟨e, he, hst⟩ := hst
      obtain ⟨k, hk⟩ := (hS.inTable P hP e he).exists_isFor
      -- and the cell of every entry holds the entry already
      have hheld : c₂.workers.mapping k = e.cell :=
        (congrArg (fun v => v.mapping k) hview).trans (hS.foldl_step_holds happend hP he hk _)
      exact PortConfig.store_of_held hk hheld st hst

/-- Entries with pairwise distinct ports and strings are at one position when both agree. -/
private theorem position_eq_of_nodup {es : List PortConfig}
    (hnodup : (es.map fun e => (e.port, e.string)).Nodup) {i i' : ℕ} {e e' : PortConfig}
    (hi : es[i]? = some e) (hi' : es[i']? = some e') (hport : e.port = e'.port)
    (hstring : e.string = e'.string) : i = i' := by
  have hlt : i < (es.map fun e => (e.port, e.string)).length := by
    rw [List.length_map]
    exact (List.getElem?_eq_some_iff.mp hi).1
  refine (List.getElem?_inj hlt hnodup).mp ?_
  rw [List.getElem?_map, List.getElem?_map, hi, hi', Option.map_some, Option.map_some, hport,
    hstring]

/-- `run_config_redelivery` on a configuration of two packets with three entries: delivered as
`P, Q, P` and as `Q, P` it leaves the same mapping, and `P` and `Q` once more change nothing. -/
theorem run_config_redelivery_sample :
    let P := ConfigPacket.encode 1 [⟨0, 0, 5, 3⟩] (by decide)
    let Q := ConfigPacket.encode 1 [⟨0, 1, 40, 2⟩, ⟨2, 0, 9, 6⟩] (by decide)
    (∃ c₁ c₂ : Controller,
      Controller.run default default [P.action default, Q.action default, P.action default] =
        .ok c₁ ∧
      Controller.run default default [Q.action default, P.action default] = .ok c₂ ∧
      c₁.workers.mapping = c₂.workers.mapping) ∧
    ∃ c₁ c₂ : Controller,
      Controller.run default default [Q.action default, P.action default] = .ok c₁ ∧
      c₁.run default [P.action default, Q.action default] = .ok c₂ ∧
      c₂.workers.mapping = c₁.workers.mapping ∧
      ∀ n, c₂.workers.storeAll ((Q.stores c₂.lastConfigSequence).take n) = .ok c₂.workers := by
  classical
  intro P Q
  have hentriesP : P.entries = [⟨0, 0, 5, 3⟩] := ConfigPacket.entries_encode ..
  have hentriesQ : Q.entries = [⟨0, 1, 40, 2⟩, ⟨2, 0, 9, 6⟩] := ConfigPacket.entries_encode ..
  have hmem : ∀ {R : ConfigPacket}, R ∈ ({P, Q} : Finset ConfigPacket) → R = P ∨ R = Q := by
    intro R hR
    rwa [Finset.mem_insert, Finset.mem_singleton] at hR
  -- no port and string is in both packets
  have hapart : ∀ e ∈ P.entries, ∀ e' ∈ Q.entries,
      ¬(e.port = e'.port ∧ e.string = e'.string) := by
    rw [hentriesP, hentriesQ]
    decide
  have hS : IsConfiguration {P, Q} := by
    refine ⟨fun R hR R' hR' => ?_, fun R hR => ?_, ?_⟩
    · have hseq : ∀ R ∈ ({P, Q} : Finset ConfigPacket), R.sequenceNumber = 1 := by
        intro R hR
        rcases hmem hR with rfl | rfl <;> exact ConfigPacket.sequenceNumber_encode ..
      rw [hseq R hR, hseq R' hR']
    · rcases hmem hR with rfl | rfl <;> exact ConfigPacket.inTable_encode.mpr (by decide)
    · intro R hR R' hR' i i' e e' hi hi' hport hstring
      have he : e ∈ R.entries := List.mem_of_getElem? hi
      have he' : e' ∈ R'.entries := List.mem_of_getElem? hi'
      have hnodup : (R.entries.map fun e => (e.port, e.string)).Nodup := by
        rcases hmem hR with rfl | rfl
        · rw [hentriesP]
          decide
        · rw [hentriesQ]
          decide
      have hRR' : R = R' := by
        rcases hmem hR with rfl | rfl <;> rcases hmem hR' with rfl | rfl
        · rfl
        · exact absurd ⟨hport, hstring⟩ (hapart e he e' he')
        · exact absurd ⟨hport.symm, hstring.symm⟩ (hapart e' he' e he)
        · rfl
      subst hRR'
      exact ⟨rfl, position_eq_of_nodup hnodup hi hi' hport hstring⟩
  have hPQP : IsDelivery {P, Q} [P, Q, P] := by
    intro R
    simp only [List.mem_cons, List.not_mem_nil, or_false, Finset.mem_insert, Finset.mem_singleton]
    tauto
  have hQP : IsDelivery {P, Q} [Q, P] := fun R => by simp [or_comm]
  have h := run_config_redelivery hS default default default
  obtain ⟨c₁, c₂, hrun₁, hrun₂, hmap, hheld⟩ := h.2 [Q, P] [P, Q] hQP fun R hR => by simpa using hR
  exact ⟨h.1 [P, Q, P] [Q, P] hPQP hQP, c₁, c₂, hrun₁, hrun₂, hmap, hheld Q (by simp)⟩

end PiPixelController
