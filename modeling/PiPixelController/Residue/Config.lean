import PiPixelController.Residue.Basic
import PiPixelController.ThreadCtrl.Confinement

/-!
# Residue in the handler of configuration packets

`zcpp_process_config` reads as many entries as the packet declares from the receive buffer,
wherever the datagram ends.
-/

namespace PiPixelController

open CSemantics

/-- The word belongs to a cell of the mapping. -/
def TableWord (addr : ℤ) : Prop :=
  ∃ k : Fin 4 × Fin 8, addr = channelCountAddr k.1 k.2 ∨ addr = startChannelAddr k.1 k.2

namespace Workers

variable {w w' : Workers} {i : Fin 760} {v : BitVec 32}

/-- The mapping is what is stored in the words of the table. -/
theorem mapping_eq_iff :
    w.mapping = w'.mapping ↔ ∀ i : Fin 760, TableWord i → w i = w' i := by
  -- a word of the table is the count or the start of one cell
  constructor
  · rintro h i ⟨k, hk | hk⟩
    · obtain rfl : i = channelCountIdx k :=
        Fin.ext (Int.ofNat.inj (hk.trans (channelCountIdx_eq k).symm))
      exact congrArg Cell.channelCount (congrFun h k)
    · obtain rfl : i = startChannelIdx k :=
        Fin.ext (Int.ofNat.inj (hk.trans (startChannelIdx_eq k).symm))
      exact congrArg Cell.startChannel (congrFun h k)
  · intro h
    funext k
    rw [mapping, mapping, h _ ⟨k, Or.inl (channelCountIdx_eq k)⟩,
      h _ ⟨k, Or.inr (startChannelIdx_eq k)⟩]

theorem mapping_update_congr (h : w.mapping = w'.mapping) (i : Fin 760) (v : BitVec 32) :
    mapping (Function.update w i v) = mapping (Function.update w' i v) := by
  rw [mapping_eq_iff] at h ⊢
  intro j hj
  by_cases hji : j = i
  · rw [hji, Function.update_self, Function.update_self]
  · rw [Function.update_of_ne hji, Function.update_of_ne hji, h j hj]

theorem mapping_update_of_not_tableWord (h : ¬TableWord i) :
    mapping (Function.update w i v) = w.mapping := by
  rw [mapping_eq_iff]
  intro j hj
  have hji : j ≠ i := fun heq => h (heq ▸ hj)
  exact Function.update_of_ne hji _ _

/-- Assignments do not end the process. -/
theorem storeAll_ne_exit (sts : List WordStore) : w.storeAll sts ≠ .exit := by
  induction sts generalizing w with
  | nil => simp
  | cons st sts ih =>
      rw [storeAll_cons]
      by_cases h : 0 ≤ st.addr ∧ st.addr < 760
      · rw [store, dif_pos h, Outcome.ok_bind]
        exact ih
      · rw [store_of_not_mem h]
        simp

end Workers

namespace Zcpp

/-- The word the start channel of `PortConfig[a]` is stored to. -/
def entryAddr (eth : EthBuffer) (a : ℕ) : ℤ :=
  startChannelAddr (portConfig eth a).port.toNat (portConfig eth a).string.toNat

/-- Handling `PortConfig[a]` leaves the receive buffer or the array `workers`. -/
def EntryOutside (eth : EthBuffer) (a : ℕ) : Prop := 91 ≤ a ∨ 760 ≤ entryAddr eth a

/-- The datagram ends inside its last entry, and nothing of the rest of that entry is stored in
a word of the table: neither the count nor, unless it is carried, the start channel. -/
def RestHarmless (d : Datagram) : Prop :=
  let last := 44 + 16 * (ports d.eth - 1)
  let port := (d.eth.get last).toNat
  last < d.bytes.length ∧
    ∀ string : Byte, (last + 1 < d.bytes.length → string = d.eth.get (last + 1)) →
      startChannelAddr port string.toNat < 760 ∧ ¬TableWord (channelCountAddr port string.toNat) ∧
        (last + 8 ≤ d.bytes.length ∨ ¬TableWord (startChannelAddr port string.toNat))

/-- The bytes of a configuration alone decide what it does: its entries are inside the receive
buffer and `workers`, and it carries all of them, or nothing of what is missing reaches the
table. -/
def ConfigDetermined (d : Datagram) : Prop :=
  44 ≤ d.bytes.length ∧ (∀ a < ports d.eth, ¬EntryOutside d.eth a) ∧
    (40 + 16 * ports d.eth ≤ d.bytes.length ∨ RestHarmless d)

/-- The mappings are cleared when the sequence number is not the last one. -/
def clearMappings (sequence : BitVec 16) (last : BitVec 32) (w : Workers) : Outcome Workers :=
  if last ≠ sequence.setWidth 32 then w.storeAll clearStores else pure w

/-- What a configuration does to `workers`. -/
def configEffect (eth : EthBuffer) (last : BitVec 32) (w : Workers) : Outcome Workers :=
  clearMappings (sequenceNumber eth) last w >>= (List.range (ports eth)).foldlM (processEntry eth)

section

variable {d : Datagram} {eth eth' : EthBuffer} {w : Workers} {a : ℕ}

theorem processConfig_eq (eth : EthBuffer) (c : Controller) :
    processConfig eth c = do
      let w ← configEffect eth c.lastConfigSequence c.workers
      return { c with lastConfigSequence := (sequenceNumber eth).setWidth 32, workers := w } := by
  rw [processConfig, configEffect, clearMappings]
  by_cases h : c.lastConfigSequence = (sequenceNumber eth).setWidth 32
  · rw [if_neg (not_not.mpr h), if_neg (not_not.mpr h), ← h]
    simp only [Outcome.pure_eq_ok, Outcome.ok_bind]
  · rw [if_pos h, if_pos h]
    simp only [Outcome.pure_eq_ok, bind_assoc, Outcome.ok_bind]

/-! ### One entry -/

theorem processEntry_congr (h : ∀ i < 44 + 16 * a + 12, eth.get i = eth'.get i) (w : Workers) :
    processEntry eth w a = processEntry eth' w a := by
  rw [processEntry, processEntry, readPortConfig, readPortConfig, portConfig_congr h]

/-- An entry outside is undefined. -/
theorem processEntry_of_outside (h : EntryOutside eth a) (w : Workers) :
    processEntry eth w a = .undefined := by
  by_cases ha : 91 ≤ a
  · rw [processEntry, readPortConfig, if_neg (by omega)]
    rfl
  · have haddr : 760 ≤ entryAddr eth a := h.resolve_left ha
    rw [entryAddr] at haddr
    rw [processEntry, readPortConfig, if_pos (by omega), Outcome.ok_bind, cellStores,
      Workers.storeAll_cons, Outcome.bind_eq_undefined_iff]
    -- the count may still be stored; the start channel is not
    cases hstore : w.store ⟨channelCountAddr (portConfig eth a).port.toNat
        (portConfig eth a).string.toNat, (portConfig eth a).cell.channelCount⟩ with
    | ok w' =>
        refine Or.inr ⟨w', rfl, ?_⟩
        rw [Workers.storeAll_cons, Workers.store_of_not_mem (by simp only; omega)]
        rfl
    | exit =>
        exact absurd (show w.storeAll [_] = .exit by rw [Workers.storeAll_cons, hstore]; rfl)
          (Workers.storeAll_ne_exit _)
    | undefined => exact Or.inl rfl

/-- Any other entry updates the two words it names. -/
theorem processEntry_of_not_outside (h : ¬EntryOutside eth a) (w : Workers) :
    ∃ i j : Fin 760, (i : ℤ) = channelCountAddr (portConfig eth a).port.toNat
        (portConfig eth a).string.toNat ∧ (j : ℤ) = entryAddr eth a ∧
      processEntry eth w a = .ok (Function.update
        (Function.update w i (portConfig eth a).channels) j (portConfig eth a).startChannel) := by
  rw [EntryOutside, not_or, entryAddr] at h
  obtain ⟨ha, haddr⟩ := h
  obtain ⟨i, j, hi, hj, hstore⟩ := w.storeAll_cellStores_of_nonneg
    (by rw [channelCountAddr]; omega) (not_le.mp haddr) (portConfig eth a).cell
  refine ⟨i, j, hi, hj, ?_⟩
  rw [processEntry, readPortConfig, if_pos (by omega), Outcome.ok_bind, hstore]
  rfl

theorem processEntry_ne_exit (eth : EthBuffer) (w : Workers) (a : ℕ) :
    processEntry eth w a ≠ .exit := by
  by_cases h : EntryOutside eth a
  · rw [processEntry_of_outside h]
    simp
  · obtain ⟨i, j, -, -, hok⟩ := processEntry_of_not_outside h w
    rw [hok]
    simp

/-- An entry that is not outside lies in the receive buffer. -/
theorem lt_of_not_entryOutside (h : ¬EntryOutside eth a) : a < 91 :=
  not_le.mp fun ha => h (Or.inl ha)

/-! ### The loop over the entries -/

theorem foldlM_processEntry_congr {k : ℕ} (h : ∀ i < 40 + 16 * k, eth.get i = eth'.get i)
    (w : Workers) :
    (List.range k).foldlM (processEntry eth) w = (List.range k).foldlM (processEntry eth') w := by
  apply Outcome.foldlM_congr
  intro w a ha
  have hlt := List.mem_range.mp ha
  exact processEntry_congr (fun i hi => h i (by omega)) w

theorem foldlM_processEntry_of_outside {k : ℕ} (h : ∃ a < k, EntryOutside eth a)
    (w : Workers) : (List.range k).foldlM (processEntry eth) w = .undefined := by
  obtain ⟨a, ha, hout⟩ := h
  exact Outcome.foldlM_eq_undefined (fun w a _ => processEntry_ne_exit eth w a)
    (List.mem_range.mpr ha) (processEntry_of_outside hout) w

theorem exists_foldlM_processEntry {k : ℕ} (h : ∀ a < k, ¬EntryOutside eth a) (w : Workers) :
    ∃ w', (List.range k).foldlM (processEntry eth) w = .ok w' := by
  have hstep : ∀ pre a post, List.range k = pre ++ a :: post → ∀ w : Workers, True →
      ∃ w', processEntry eth w a = .ok w' ∧ True := by
    intro pre a post hpre w _
    have hmem : a ∈ List.range k := by simp [hpre]
    obtain ⟨i, j, -, -, hok⟩ := processEntry_of_not_outside (h a (List.mem_range.mp hmem)) w
    exact ⟨_, hok, trivial⟩
  obtain ⟨w', hw', -⟩ := Outcome.foldlM_total (fun _ _ => True) trivial hstep
  exact ⟨w', hw'⟩

theorem foldlM_processEntry_succ (eth : EthBuffer) (a : ℕ) (w : Workers) :
    (List.range (a + 1)).foldlM (processEntry eth) w =
      (List.range a).foldlM (processEntry eth) w >>= fun w => processEntry eth w a := by
  rw [List.range_succ, List.foldlM_append]
  simp only [List.foldlM_cons, List.foldlM_nil, bind_pure]

/-! ### Determined configurations -/

/-- The number of entries and the sequence number of a datagram of 44 bytes are carried. -/
theorem configEffect_of_length (hlen : 44 ≤ d.bytes.length) (heth : d.CarriedBy eth)
    (last : BitVec 32) (w : Workers) :
    configEffect eth last w = clearMappings (sequenceNumber d.eth) last w >>=
      (List.range (ports d.eth)).foldlM (processEntry eth) := by
  rw [configEffect, sequenceNumber_congr fun i hi => heth i (by omega),
    ports_congr fun i hi => heth i (by omega)]

/-- The words of a datagram's last, truncated entry that are missing do not reach the table. -/
theorem mapping_processEntry_eq (hports : ports d.eth = a + 1) (h : RestHarmless d)
    (heth : d.CarriedBy eth) (heth' : d.CarriedBy eth') (w : Workers) :
    Workers.mapping <$> processEntry eth w a = Workers.mapping <$> processEntry eth' w a := by
  by_cases ha : 91 ≤ a
  · rw [processEntry_of_outside (Or.inl ha), processEntry_of_outside (Or.inl ha)]
  · rw [RestHarmless, hports, Nat.add_sub_cancel] at h
    obtain ⟨hlast, hstring⟩ := h
    have hentry : ∀ {e : EthBuffer}, d.CarriedBy e →
        (portConfig e a).port = d.eth.get (44 + 16 * a) ∧
          (44 + 16 * a + 1 < d.bytes.length →
            (portConfig e a).string = d.eth.get (44 + 16 * a + 1)) :=
      fun he => ⟨he _ hlast, fun hlt => he _ hlt⟩
    obtain ⟨hport, hs⟩ := hentry heth
    obtain ⟨hport', hs'⟩ := hentry heth'
    obtain ⟨haddr, hcount, hstart⟩ := hstring _ hs
    obtain ⟨haddr', hcount', hstart'⟩ := hstring _ hs'
    rw [← hport] at haddr hcount hstart
    rw [← hport'] at haddr' hcount' hstart'
    obtain ⟨i, j, hi, hj, hok⟩ := @processEntry_of_not_outside eth a
      (by rw [EntryOutside, entryAddr]; omega) w
    obtain ⟨i', j', hi', hj', hok'⟩ := @processEntry_of_not_outside eth' a
      (by rw [EntryOutside, entryAddr]; omega) w
    rw [← hi] at hcount
    rw [← hi'] at hcount'
    rw [entryAddr] at hj hj'
    rw [← hj] at hstart
    rw [← hj'] at hstart'
    rw [hok, hok', Outcome.map_ok, Outcome.map_ok, Outcome.ok.injEq]
    by_cases hcarried : 44 + 16 * a + 8 ≤ d.bytes.length
    · -- both store the start channel the datagram carries
      have hsame : (portConfig eth a).string = (portConfig eth' a).string := by
        rw [hs (by omega), hs' (by omega)]
      have hvalue : (portConfig eth a).startChannel = (portConfig eth' a).startChannel :=
        congrArg ntohl (Block.load32_congr fun i hi =>
          (heth _ (by omega)).trans (heth' _ (by omega)).symm)
      obtain rfl : j = j' := by
        apply Fin.ext
        rw [hport, hsame, ← hport', ← hj'] at hj
        exact Int.ofNat.inj hj
      rw [hvalue]
      apply Workers.mapping_update_congr
      rw [Workers.mapping_update_of_not_tableWord hcount,
        Workers.mapping_update_of_not_tableWord hcount']
    · -- neither word is in the table, whatever is stored there
      rw [Workers.mapping_update_of_not_tableWord (hstart.resolve_left hcarried),
        Workers.mapping_update_of_not_tableWord hcount,
        Workers.mapping_update_of_not_tableWord (hstart'.resolve_left hcarried),
        Workers.mapping_update_of_not_tableWord hcount']

theorem exists_clearMappings (sequence : BitVec 16) (last : BitVec 32) (w : Workers) :
    ∃ w', clearMappings sequence last w = .ok w' := by
  rw [clearMappings]
  split
  · obtain ⟨w', hw', -⟩ := storeAll_clearStores w
    exact ⟨w', hw'⟩
  · exact ⟨w, rfl⟩

theorem configEffect_ne_exit (eth : EthBuffer) (last : BitVec 32) (w : Workers) :
    configEffect eth last w ≠ .exit := by
  obtain ⟨w₀, hclear⟩ := exists_clearMappings (sequenceNumber eth) last w
  rw [configEffect, hclear, Outcome.ok_bind]
  exact Outcome.foldlM_ne_exit (fun w a _ => processEntry_ne_exit eth w a) w₀

theorem exists_configEffect_iff {last : BitVec 32} :
    (∃ w', configEffect eth last w = .ok w') ↔ ∀ a < ports eth, ¬EntryOutside eth a := by
  obtain ⟨w₀, hclear⟩ := exists_clearMappings (sequenceNumber eth) last w
  rw [configEffect, hclear, Outcome.ok_bind]
  constructor
  · rintro ⟨w', hw'⟩ a ha hout
    rw [foldlM_processEntry_of_outside ⟨a, ha, hout⟩] at hw'
    cases hw'
  · exact fun h => exists_foldlM_processEntry h w₀

/-- A determined configuration leaves one mapping. -/
theorem mapping_configEffect_eq (h : ConfigDetermined d) (heth : d.CarriedBy eth)
    (last : BitVec 32) (w : Workers) :
    Workers.mapping <$> configEffect eth last w =
      Workers.mapping <$> configEffect d.eth last w := by
  obtain ⟨hlen, -, h⟩ := h
  rw [configEffect_of_length hlen heth, configEffect_of_length hlen d.carriedBy_eth, map_bind,
    map_bind]
  congr 1
  funext w
  -- everything is carried, or only the last entry differs
  rcases h with h | h
  · rw [foldlM_processEntry_congr fun i hi => heth i (by omega)]
  · cases hports : ports d.eth with
    | zero => rfl
    | succ a =>
        have hlast : 44 + 16 * a < d.bytes.length := by
          rw [RestHarmless, hports] at h
          exact h.1
        rw [foldlM_processEntry_succ, foldlM_processEntry_succ, map_bind, map_bind,
          foldlM_processEntry_congr fun i hi => heth i (by omega)]
        congr 1
        funext w
        exact mapping_processEntry_eq hports h heth d.carriedBy_eth w

theorem decides_of_configDetermined (h : ConfigDetermined d) (last : BitVec 32) (w : Workers) :
    d.Decides fun eth => Workers.mapping <$> configEffect eth last w := by
  obtain ⟨w', hok⟩ : ∃ w', configEffect d.eth last w = .ok w' := exists_configEffect_iff.mpr h.2.1
  exact .of_eth (by rw [hok]; simp) fun eth heth => mapping_configEffect_eq h heth last w

/-! ### Undetermined configurations -/

theorem entryOutside_congr (h : ∀ i < 44 + 16 * a + 12, eth.get i = eth'.get i) :
    EntryOutside eth a ↔ EntryOutside eth' a := by
  rw [EntryOutside, EntryOutside, entryAddr, entryAddr, portConfig_congr h]

/-- A difference in the last entry is a difference of the whole configuration, when the entries
before it complete. -/
theorem configEffect_ne (hports : ports eth = a + 1)
    (hagree : ∀ i < 44 + 16 * a, eth'.get i = eth.get i)
    (hin : ∀ b < a, ¬EntryOutside eth b)
    (hne : ∀ w, Workers.mapping <$> processEntry eth' w a ≠
      Workers.mapping <$> processEntry eth w a) (last : BitVec 32) (w : Workers) :
    Workers.mapping <$> configEffect eth' last w ≠
      Workers.mapping <$> configEffect eth last w := by
  have hseq : sequenceNumber eth' = sequenceNumber eth :=
    sequenceNumber_congr fun i hi => hagree i (by omega)
  have hports' : ports eth' = a + 1 :=
    (ports_congr fun i hi => hagree i (by omega)).trans hports
  obtain ⟨w₁, hclear⟩ := exists_clearMappings (sequenceNumber eth) last w
  obtain ⟨w₂, hpre⟩ := exists_foldlM_processEntry hin w₁
  have hpre' : (List.range a).foldlM (processEntry eth') w₁ = .ok w₂ := by
    rw [foldlM_processEntry_congr fun i hi => hagree i (by omega), hpre]
  rw [configEffect, configEffect, hseq, hports, hports', hclear, Outcome.ok_bind,
    Outcome.ok_bind, foldlM_processEntry_succ, foldlM_processEntry_succ, hpre, hpre',
    Outcome.ok_bind, Outcome.ok_bind]
  exact hne w₂

/-- Two entries for the same words of which one is in the table, with different values for
that word. -/
theorem mapping_processEntry_ne (hin : ¬EntryOutside eth a)
    (hport : (portConfig eth' a).port = (portConfig eth a).port)
    (hstring : (portConfig eth' a).string = (portConfig eth a).string)
    (hvalue :
      TableWord (channelCountAddr (portConfig eth a).port.toNat (portConfig eth a).string.toNat) ∧
        (portConfig eth' a).channels ≠ (portConfig eth a).channels ∨
      TableWord (entryAddr eth a) ∧
        (portConfig eth' a).startChannel ≠ (portConfig eth a).startChannel) (w : Workers) :
    Workers.mapping <$> processEntry eth' w a ≠ Workers.mapping <$> processEntry eth w a := by
  have haddr : entryAddr eth' a = entryAddr eth a := by
    rw [entryAddr, entryAddr, hport, hstring]
  have hin' : ¬EntryOutside eth' a := by
    rwa [EntryOutside, haddr]
  obtain ⟨i, j, hi, hj, hok⟩ := processEntry_of_not_outside hin w
  obtain ⟨i', j', hi', hj', hok'⟩ := processEntry_of_not_outside hin' w
  rw [hport, hstring, ← hi] at hi'
  rw [haddr, ← hj] at hj'
  obtain rfl : i' = i := Fin.ext (Int.ofNat.inj hi')
  obtain rfl : j' = j := Fin.ext (Int.ofNat.inj hj')
  have hij : i' ≠ j' := by
    rintro rfl
    rw [entryAddr, startChannelAddr] at hj
    rw [channelCountAddr] at hi
    omega
  rw [hok, hok', Outcome.map_ok, Outcome.map_ok]
  intro heq
  have hwords := Workers.mapping_eq_iff.mp (Outcome.ok.inj heq)
  rcases hvalue with ⟨htable, hne⟩ | ⟨htable, hne⟩
  · have hword := hwords i' (hi ▸ htable)
    rw [Function.update_of_ne hij, Function.update_of_ne hij, Function.update_self,
      Function.update_self] at hword
    exact hne hword
  · have hword := hwords j' (hj ▸ htable)
    rw [Function.update_self, Function.update_self] at hword
    exact hne hword

/-- Changing the last byte of a 32-bit field changes the field. -/
theorem ntohl_load32_set_ne {off : ℕ} (hoff : off + 3 < 1500) (hzero : eth.get (off + 3) = 0) :
    ntohl ((eth.set (off + 3) 1).load32 off) ≠ ntohl (eth.load32 off) := by
  have hone : (1 : Byte).toNat = 1 := rfl
  have h0 : (0 : Byte).toNat = 0 := rfl
  intro heq
  have hnat := congrArg BitVec.toNat heq
  rw [Block.ntohl_load32, Block.ntohl_load32, toNat_word32, toNat_word32,
    EthBuffer.get_set_of_ne _ (by omega), EthBuffer.get_set_of_ne _ (by omega),
    EthBuffer.get_set_of_ne _ (by omega), EthBuffer.get_set_self _ hoff, hzero] at hnat
  omega

/-- When the last entry is all residue, the residue chooses the count of string 0 of port 0. -/
theorem not_decides_of_missing {t : EthBuffer} (ht : d.CarriedBy t)
    (hports : ports t = a + 1) (hin : ∀ b < a + 1, ¬EntryOutside t b)
    (hlen : d.bytes.length ≤ 44 + 16 * a) (hzero : ∀ i, 44 + 16 * a ≤ i → t.get i = 0)
    (last : BitVec 32) (w : Workers) :
    ¬d.Decides fun eth => Workers.mapping <$> configEffect eth last w := by
  have ha : a < 91 := lt_of_not_entryOutside (hin a (by omega))
  intro hdecides
  refine absurd (hdecides.eq (ht.set (show d.bytes.length ≤ 44 + 16 * a + 8 + 3 by omega) 1) ht) ?_
  refine configEffect_ne hports (fun i hi => EthBuffer.get_set_of_ne _ (by omega) _)
    (fun b hb => hin b (by omega)) (mapping_processEntry_ne (hin a (by omega)) ?_ ?_ ?_) last w
  · exact EthBuffer.get_set_of_ne _ (by omega) _
  · exact EthBuffer.get_set_of_ne _ (by omega) _
  · refine Or.inl ⟨⟨(0, 0), Or.inl ?_⟩, ntohl_load32_set_ne (by omega) (hzero _ (by omega))⟩
    rw [portConfig, hzero _ (by omega), hzero _ (by omega)]
    rfl

/-- When the datagram ends inside its last entry, and what is missing can reach the table, or
leave `workers`, so can the residue. -/
theorem not_decides_of_rest (hports : ports d.eth = a + 1)
    (hin : ∀ b < a + 1, ¬EntryOutside d.eth b) (hlast : 44 + 16 * a < d.bytes.length)
    (hlen : d.bytes.length < 44 + 16 * a + 12) (hrest : ¬RestHarmless d)
    (last : BitVec 32) (w : Workers) :
    ¬d.Decides fun eth => Workers.mapping <$> configEffect eth last w := by
  have ha : a < 91 := lt_of_not_entryOutside (hin a (by omega))
  intro hdecides
  rw [RestHarmless, hports, Nat.add_sub_cancel] at hrest
  simp only [hlast, true_and] at hrest
  push Not at hrest
  obtain ⟨string, hstring, hreach⟩ := hrest
  -- the residue names the string
  set t := d.eth.set (44 + 16 * a + 1) string with hteq
  have ht : d.CarriedBy t := by
    intro i hi
    rw [hteq, EthBuffer.get_set _ (by omega)]
    split
    next h => rw [h, hstring (h ▸ hi)]
    next => rfl
  have hagree : ∀ i, i ≠ 44 + 16 * a + 1 → t.get i = d.eth.get i :=
    fun i hi => EthBuffer.get_set_of_ne _ hi _
  have hzero : ∀ i, d.bytes.length ≤ i → i ≠ 44 + 16 * a + 1 → t.get i = 0 :=
    fun i hi hne => (hagree i hne).trans (Datagram.eth_get_of_le hi)
  have hport : (portConfig t a).port = d.eth.get (44 + 16 * a) := hagree _ (by omega)
  have hs : (portConfig t a).string = string := EthBuffer.get_set_self _ (by omega) _
  have htports : ports t = a + 1 :=
    (ports_congr fun i hi => hagree i (by omega)).trans hports
  have htin : ∀ b < a, ¬EntryOutside t b := by
    intro b hb
    rw [entryOutside_congr fun i hi => hagree i (by omega)]
    exact hin b (by omega)
  by_cases hout : EntryOutside t a
  · -- undefined with this residue, defined with zeros
    refine absurd (hdecides.eq ht d.carriedBy_eth) (configEffect_ne hports
      (fun i hi => hagree i (by omega)) (fun b hb => hin b (by omega)) (fun w => ?_) last w)
    obtain ⟨i, j, -, -, hok⟩ := processEntry_of_not_outside (hin a (by omega)) w
    rw [processEntry_of_outside hout, hok]
    simp
  · have haddr : startChannelAddr (d.eth.get (44 + 16 * a)).toNat string.toNat < 760 := by
      rw [EntryOutside, not_or, entryAddr, hport, hs] at hout
      omega
    -- change the last byte of a field: the count, or else the start channel
    have hset : ∀ off, off = 44 + 16 * a + 8 ∨ off = 44 + 16 * a + 4 →
        (portConfig (t.set (off + 3) 1) a).port = (portConfig t a).port ∧
          (portConfig (t.set (off + 3) 1) a).string = (portConfig t a).string ∧
          ∀ i < 44 + 16 * a, (t.set (off + 3) 1).get i = t.get i :=
      fun off hoff => ⟨EthBuffer.get_set_of_ne _ (by omega) _,
        EthBuffer.get_set_of_ne _ (by omega) _,
        fun i hi => EthBuffer.get_set_of_ne _ (by omega) _⟩
    by_cases hcount : TableWord (channelCountAddr (d.eth.get (44 + 16 * a)).toNat string.toNat)
    · obtain ⟨hp, hstr, hpre⟩ := hset (44 + 16 * a + 8) (Or.inl rfl)
      refine absurd (hdecides.eq (ht.set (by omega) 1) ht) (configEffect_ne htports hpre htin
        (mapping_processEntry_ne hout hp hstr (Or.inl ⟨?_, ?_⟩)) last w)
      · rwa [hport, hs]
      · exact ntohl_load32_set_ne (by omega) (hzero _ (by omega) (by omega))
    · obtain ⟨hshort, hstart⟩ := hreach haddr hcount
      obtain ⟨hp, hstr, hpre⟩ := hset (44 + 16 * a + 4) (Or.inr rfl)
      refine absurd (hdecides.eq (ht.set (by omega) 1) ht) (configEffect_ne htports hpre htin
        (mapping_processEntry_ne hout hp hstr (Or.inr ⟨?_, ?_⟩)) last w)
      · rwa [entryAddr, hport, hs]
      · exact ntohl_load32_set_ne (by omega) (hzero _ (by omega) (by omega))

/-- A configuration that decides what happens is determined. -/
theorem configDetermined_of_decides {last : BitVec 32}
    (h : d.Decides fun eth => Workers.mapping <$> configEffect eth last w) :
    ConfigDetermined d := by
  by_cases hlen : 44 ≤ d.bytes.length
  · have hin : ∀ a < ports d.eth, ¬EntryOutside d.eth a := by
      intro a ha hout
      obtain ⟨w₀, hclear⟩ := exists_clearMappings (sequenceNumber d.eth) last w
      apply h.ne_undefined d.carriedBy_eth
      rw [configEffect, hclear, Outcome.ok_bind, foldlM_processEntry_of_outside ⟨a, ha, hout⟩]
      rfl
    refine ⟨hlen, hin, or_iff_not_imp_left.mpr fun hshort => ?_⟩
    obtain ⟨a, hports⟩ : ∃ a, ports d.eth = a + 1 :=
      Nat.exists_eq_succ_of_ne_zero (by omega)
    rw [hports] at hin hshort
    by_contra hrest
    by_cases hlast : 44 + 16 * a < d.bytes.length
    · exact not_decides_of_rest hports hin hlast (by omega) hrest last w h
    · exact not_decides_of_missing d.carriedBy_eth hports hin (by omega)
        (fun i hi => Datagram.eth_get_of_le (by omega)) last w h
  · -- not even the number of entries is carried: let the residue declare one
    have hzero : ∀ i, 44 ≤ i → (d.eth.set 43 1).get i = 0 := by
      intro i hi
      rw [EthBuffer.get_set_of_ne _ (by omega), Datagram.eth_get_of_le (by omega)]
    refine absurd h (not_decides_of_missing (a := 0) (d.carriedBy_eth.set (by omega) 1) ?_ ?_
      (by omega) (fun i hi => hzero i (by omega)) last w)
    · rw [ports, EthBuffer.get_set_self _ (by decide)]
      rfl
    · intro b hb
      obtain rfl : b = 0 := by omega
      have haddr : entryAddr (d.eth.set 43 1) 0 = 12 := by
        rw [entryAddr, portConfig, hzero _ (by decide), hzero _ (by decide)]
        rfl
      rw [EntryOutside, haddr]
      decide

/-- The bytes of a configuration alone decide the mapping exactly when it is determined. -/
theorem configDecides_iff {last : BitVec 32} :
    (d.Decides fun eth => Workers.mapping <$> configEffect eth last w) ↔ ConfigDetermined d :=
  ⟨configDetermined_of_decides, fun h => decides_of_configDetermined h last w⟩

end

end Zcpp

end PiPixelController
