import PiPixelController.CSemantics.Strings
import PiPixelController.Startup.Defs
import PiPixelController.Zcpp.Discovery

/-!
# Decoding the discovery response

What a receiver reads in the response: the fields of `ZCPP_DiscoveryResponse`, those of 16 and 32
bits in network byte order. `maxTotalChannels` is a 32-bit field that is assigned `htons(4800)`,
which no receiver reads as 4800. The name is stored by a bounded copy into 32 bytes, which does
not terminate it, and copied into the response by an unbounded one.

* `decodeResponse_eq` — every other field is the intended one, when the name ends in its array;
* `nameCopyInside_iff` — when it does;
* `discovery_response_iff` — the response is never the intended one, and up to the total number of
  channels it is exactly for names of at most 31 bytes.
-/

namespace PiPixelController

open CSemantics

/-! ### The stored name -/

namespace ConfigFile

/-- `CONTROLLER_NAME`: `"PiPixelController"`. -/
def defaultControllerName : List Byte :=
  [0x50, 0x69, 0x50, 0x69, 0x78, 0x65, 0x6C, 0x43, 0x6F, 0x6E, 0x74, 0x72, 0x6F, 0x6C, 0x6C, 0x65,
    0x72]

/-- `controller_name`, `CONTROLLER_NAME` by default. -/
def controllerNameSetting (file : ConfigFile) : List Byte :=
  file.controllerName.getD defaultControllerName

/-- `zcpp_listen_param` from `controller_name` on, when the ZCPP listener starts: the global was
zero, `main` stores the name and then the two pointers behind it. -/
def zcppControllerName (file : ConfigFile) (pointers : Block 16) : Block 48 :=
  let param : Block 48 := fun i => if 32 ≤ i.val then pointers.get (i.val - 32) else 0
  match file.controllerName with
  | some name => param.strncpy 0 name 32
  | none => param.write 0 (defaultControllerName ++ [0x00])

/-- Either way the array holds the name, cut after 32 bytes or padded with NULs. -/
theorem get_zcppControllerName (file : ConfigFile) (pointers : Block 16) {i : ℕ} (hi : i < 32) :
    (file.zcppControllerName pointers).get i = file.controllerNameSetting.getD i 0 := by
  rw [zcppControllerName, controllerNameSetting]
  cases file.controllerName with
  | some name =>
      have hget := Block.get_strncpy
        (fun j : Fin 48 => if 32 ≤ j.val then pointers.get (j.val - 32) else 0) name
        (show 0 + 32 ≤ 48 by decide) hi
      rwa [Nat.zero_add] at hget
  | none =>
      have hdefault : ∀ j < 32, (defaultControllerName ++ [0x00]).getD j 0 =
          defaultControllerName.getD j 0 := by decide
      rw [Block.get_write _ _ _ (by omega), if_pos (Nat.zero_le i),
        Block.get_of_lt _ (show i < 48 by omega), if_neg (by simp only; omega)]
      exact hdefault i hi

end ConfigFile

namespace Zcpp

/-! ### The fields of the response -/

/-- `ZCPP_DiscoveryResponse`, in host byte order. -/
structure ResponseFields where
  /-- `Header.token`. -/
  token : List Byte
  /-- `Header.type`. -/
  type : Byte
  /-- `Header.protocolVersion`. -/
  protocolVersion : Byte
  /-- `minProtocolVersion`. -/
  minProtocolVersion : Byte
  /-- `maxProtocolVersion`. -/
  maxProtocolVersion : Byte
  /-- `vendor`. -/
  vendor : BitVec 16
  /-- `model`. -/
  model : BitVec 16
  /-- `firmwareVersion`. -/
  firmwareVersion : List Byte
  /-- `macAddress`. -/
  macAddress : List Byte
  /-- `ipv4Address`. -/
  ipv4Address : BitVec 32
  /-- `ipv4Mask`. -/
  ipv4Mask : BitVec 32
  /-- `userControllerName`. -/
  userControllerName : List Byte
  /-- `maxTotalChannels`. -/
  maxTotalChannels : BitVec 32
  /-- `pixelPorts`. -/
  pixelPorts : Byte
  /-- `rsPorts`. -/
  rsPorts : Byte
  /-- `channelsPerPixelPort`. -/
  channelsPerPixelPort : BitVec 16
  /-- `channelsPerRSPort`. -/
  channelsPerRSPort : BitVec 16
  /-- `flags`. -/
  flags : BitVec 16
  /-- `protocolsSupported`. -/
  protocolsSupported : BitVec 32
deriving DecidableEq

/-- What a receiver reads. -/
def decodeResponse (D : Block 88) : ResponseFields where
  token := D.slice 0 4
  type := D.get 4
  protocolVersion := D.get 5
  minProtocolVersion := D.get 6
  maxProtocolVersion := D.get 7
  vendor := fromWire16 (D.load16 8)
  model := fromWire16 (D.load16 10)
  firmwareVersion := D.slice 12 12
  macAddress := D.slice 24 6
  ipv4Address := fromWire32 (D.load32 32)
  ipv4Mask := fromWire32 (D.load32 36)
  userControllerName := D.slice 40 32
  maxTotalChannels := fromWire32 (D.load32 72)
  pixelPorts := D.get 76
  rsPorts := D.get 77
  channelsPerPixelPort := fromWire16 (D.load16 78)
  channelsPerRSPort := fromWire16 (D.load16 80)
  flags := fromWire16 (D.load16 82)
  protocolsSupported := fromWire32 (D.load32 84)

/-- What the source sets the fields to: the limits, flags and addresses as they stand in the
assignments, the name cut after 32 bytes or padded with NULs. The local address is in network byte
order. -/
def intendedResponse (name : List Byte) (localAddr : BitVec 32) : ResponseFields where
  token := token
  type := 0x01
  protocolVersion := 0
  minProtocolVersion := 0
  maxProtocolVersion := 0
  vendor := 0x0000
  model := 0x0001
  firmwareVersion := List.replicate 12 0
  macAddress := [0xA0, 0xFF, 0xFF, 0, 0, 0]
  ipv4Address := ntohl localAddr
  ipv4Mask := 0xFFFFFF00
  userControllerName := (List.range 32).map fun i => name.getD i 0
  maxTotalChannels := 4800
  pixelPorts := 4
  rsPorts := 0
  channelsPerPixelPort := 3600
  channelsPerRSPort := 0
  flags := 0x0008
  protocolsSupported := 0x00000001

/-- The assignments in front of the copy of the name. -/
def responseHead (localAddr : BitVec 32) : Block 88 :=
  let r : Block 88 := fun _ => 0
  let r := r.write 0 token
  let r := r.write 4 [0x01]
  let r := r.write 5 [0x00]
  let r := r.write 6 [0x00]
  let r := r.write 7 [0x00]
  let r := r.store16 8 (ntohs 0x0000)
  let r := r.store16 10 (ntohs 0x0001)
  let r := r.write 24 [0xA0, 0xFF, 0xFF]
  let r := r.store32 32 localAddr
  r.store32 36 (ntohl 0xFFFFFF00)

/-- The assignments behind it. -/
def responseTail (r : Block 88) : Block 88 :=
  let r := r.store32 72 ((ntohs 4800).setWidth 32)
  let r := r.write 76 [0x04]
  let r := r.write 77 [0x00]
  let r := r.store16 78 (ntohs 3600)
  let r := r.store16 80 (ntohs 0)
  let r := r.store16 82 (ntohs 0x0008)
  r.store32 84 (ntohl 0x00000001)

section

variable {controllerName : Block 48} {localAddr : BitVec 32}

theorem discoveryResponse_eq : discoveryResponse controllerName localAddr =
    responseTail <$> (responseHead localAddr).strcpy 40 controllerName := rfl

/-- The response is built exactly when the name ends in the parameter. -/
theorem exists_discoveryResponse_iff :
    (∃ D, discoveryResponse controllerName localAddr = .ok D) ↔ controllerName.strlen.isSome := by
  rw [discoveryResponse_eq, Outcome.exists_map_eq_ok_iff, Block.strcpy]
  cases hlen : controllerName.strlen with
  | none => simp
  | some len =>
      have hlt : len < 48 := (Block.strlen_eq_some_iff.mp hlen).1
      have hfit : Block.CopyFits 88 48 ((40 : ℕ) : ℤ) 0 (len + 1) := by
        rw [Block.CopyFits]
        omega
      simp only
      rw [Block.memcpy_of_fits hfit]
      exact iff_of_true ⟨_, rfl⟩ rfl

theorem discoveryResponse_ne_exit : discoveryResponse controllerName localAddr ≠ .exit := by
  rw [discoveryResponse_eq, Ne, Outcome.map_eq_exit_iff, Block.strcpy]
  split <;> simp [Block.memcpy_ne_exit]

/-- Sending is defined exactly when `connect` fails or the name ends in the parameter. -/
theorem sendDiscoveryResponse_ne_undefined_iff {net : Network} :
    sendDiscoveryResponse controllerName net ≠ .undefined ↔
      (net.connectOk → controllerName.strlen.isSome) := by
  rw [sendDiscoveryResponse]
  by_cases hnet : net.connectOk = true
  · rw [if_pos hnet, forall_prop_of_true hnet, Outcome.ne_undefined_iff discoveryResponse_ne_exit,
      exists_discoveryResponse_iff]
  · rw [if_neg hnet]
    exact iff_of_true (by simp) fun hconnect => absurd hconnect hnet

/-- The fields behind the name do not depend on what the copy of the name left. -/
theorem responseTail_fields (r : Block 88) :
    (responseTail r).load32 72 = (ntohs 4800).setWidth 32 ∧ (responseTail r).get 76 = 4 ∧
      (responseTail r).get 77 = 0 ∧ (responseTail r).load16 78 = ntohs 3600 ∧
      (responseTail r).load16 80 = ntohs 0 ∧ (responseTail r).load16 82 = ntohs 0x0008 ∧
      (responseTail r).load32 84 = ntohl 0x00000001 := by
  simp only [responseTail, Block.load32, Block.load16, Block.store32, Block.store16, Nat.reduceAdd]
  simp only [Nat.reduceLT, Block.get_write, Nat.reduceLeDiff, if_true, if_false, Nat.sub_self,
    Nat.reduceSub, List.getD_cons_zero, List.getD_cons_succ, List.getD_nil]
  decide

/-- In front of them nothing changes any more. -/
theorem get_responseTail (r : Block 88) {i : ℕ} (hi : i < 72) :
    (responseTail r).get i = r.get i := by
  simp only [responseTail, Block.store32, Block.store16]
  repeat rw [Block.get_write_of_notMem _ (Or.inl (by omega))]

/-- The fields in front of the name. -/
theorem responseHead_fields (localAddr : BitVec 32) :
    (responseHead localAddr).load16 8 = ntohs 0x0000 ∧
      (responseHead localAddr).load16 10 = ntohs 0x0001 ∧
      (responseHead localAddr).load32 32 = localAddr ∧
      (responseHead localAddr).load32 36 = ntohl 0xFFFFFF00 := by
  simp only [responseHead, Block.load32, Block.load16, Block.store32, Block.store16,
    Nat.reduceAdd]
  simp only [Nat.reduceLT, Block.get_write, Nat.reduceLeDiff, if_true, if_false, Nat.sub_self,
    Nat.reduceSub, List.getD_cons_zero, List.getD_cons_succ, List.getD_nil,
    word32_extractLsb']
  decide

/-- From the name on the packet is still zero. -/
theorem get_responseHead_of_le (localAddr : BitVec 32) {i : ℕ} (hi : 40 ≤ i) (hlt : i < 88) :
    (responseHead localAddr).get i = 0 := by
  simp only [responseHead, Block.store32, Block.store16]
  repeat rw [Block.get_write_of_notMem _ (Or.inr (by
    simp only [List.length_cons, List.length_nil, token]
    omega))]
  exact Block.get_of_lt _ hlt

theorem fromWire16_ntohs (v : BitVec 16) : fromWire16 (ntohs v) = v := by
  change ntohs (word16 (lowByte v) (highByte v)) = v
  rw [ntohs_word16, word16_highByte_lowByte]

theorem fromWire32_ntohl (v : BitVec 32) : fromWire32 (ntohl v) = v := by
  rw [ntohl]
  exact (ntohl_word32 _ _ _ _).trans (word32_extractLsb' v)

/-- What a receiver reads when the copy of the name ends with the name: everything as intended but
the total number of channels. -/
theorem decodeResponse_eq {name : List Byte}
    (hname : ∀ i < 32, controllerName.get i = name.getD i 0) :
    decodeResponse (responseTail
        ((responseHead localAddr).copy 40 controllerName 0 (name.length + 1))) =
      { intendedResponse name localAddr with maxTotalChannels := 0x12C00000 } := by
  set D := responseTail ((responseHead localAddr).copy 40 controllerName 0 (name.length + 1))
    with hD
  have hhead : ∀ i < 40, D.get i = (responseHead localAddr).get i := by
    intro i hi
    rw [hD, get_responseTail _ (by omega), Block.get_copy_of_notMem _ _ _ _ _ (Or.inl hi)]
  have hslice : ∀ off len, off + len ≤ 40 →
      D.slice off len = (responseHead localAddr).slice off len :=
    fun off len h => Block.slice_congr fun i hi => hhead _ (by omega)
  have hload16 : ∀ off, off + 2 ≤ 40 → D.load16 off = (responseHead localAddr).load16 off :=
    fun off h => Block.load16_congr fun i hi => hhead _ (by omega)
  have hload32 : ∀ off, off + 4 ≤ 40 → D.load32 off = (responseHead localAddr).load32 off :=
    fun off h => Block.load32_congr fun i hi => hhead _ (by omega)
  have huser : D.slice 40 32 = (List.range 32).map fun i => name.getD i 0 := by
    apply List.map_congr_left
    intro i hi
    rw [List.mem_range] at hi
    rw [hD, get_responseTail _ (by omega), Block.get_copy _ _ _ _ _ (by omega)]
    -- behind the terminating NUL the field is still zero
    split
    · rw [Nat.zero_add, Nat.add_sub_cancel_left, hname i hi]
    · rw [List.getD_eq_getElem?_getD, List.getElem?_eq_none (by omega), Option.getD_none,
        get_responseHead_of_le _ (by omega) (by omega)]
  obtain ⟨htotal, hports, hrs, hpixel, hrsch, hflags, hprotocols⟩ := responseTail_fields
    ((responseHead localAddr).copy 40 controllerName 0 (name.length + 1))
  obtain ⟨hvendor, hmodel, haddr, hmask⟩ := responseHead_fields localAddr
  rw [← hD] at htotal hports hrs hpixel hrsch hflags hprotocols
  rw [decodeResponse, huser, htotal, hports, hrs, hpixel, hrsch, hflags, hprotocols,
    hload16 8 (by decide), hload16 10 (by decide), hload32 32 (by decide), hload32 36 (by decide),
    hvendor, hmodel, haddr, hmask, hslice 0 4 (by decide), hslice 12 12 (by decide),
    hslice 24 6 (by decide), hhead 4 (by decide), hhead 5 (by decide), hhead 6 (by decide),
    hhead 7 (by decide)]
  simp only [fromWire16_ntohs, fromWire32_ntohl]
  rfl

/-- The copy of the name neither reads past the stored name nor writes past the field: it ends
with the first NUL, which is one of the 32 bytes. -/
def NameCopyInside (controllerName : Block 48) : Prop := ∃ k < 32, controllerName.strlen = some k

/-- The response is sent as intended, with a copy of the name that stays inside. -/
def ResponseIntended (name : List Byte) (controllerName : Block 48) (localAddr : BitVec 32) :
    Prop :=
  NameCopyInside controllerName ∧ ∃ D, discoveryResponse controllerName localAddr = .ok D ∧
    decodeResponse D = intendedResponse name localAddr

/-- The response is sent as intended but for the total number of channels, which a receiver reads
as `0x12C00000`. -/
def ResponseIntendedButTotal (name : List Byte) (controllerName : Block 48)
    (localAddr : BitVec 32) : Prop :=
  NameCopyInside controllerName ∧ ∃ D, discoveryResponse controllerName localAddr = .ok D ∧
    decodeResponse D = { intendedResponse name localAddr with maxTotalChannels := 0x12C00000 }

variable {name : List Byte}

/-- Behind a name without NULs the array is zero. -/
theorem get_stored_eq_zero_iff (hstored : ∀ i < 32, controllerName.get i = name.getD i 0)
    (hnul : ∀ b ∈ name, b ≠ 0) {i : ℕ} (hi : i < 32) :
    controllerName.get i = 0 ↔ name.length ≤ i := by
  rw [hstored i hi, List.getD_eq_getElem?_getD]
  by_cases hlt : i < name.length
  · rw [List.getElem?_eq_getElem hlt, Option.getD_some]
    exact iff_of_false (hnul _ (List.getElem_mem hlt)) (by omega)
  · rw [List.getElem?_eq_none (not_lt.mp hlt), Option.getD_none]
    exact iff_of_true rfl (not_lt.mp hlt)

theorem strlen_stored (hstored : ∀ i < 32, controllerName.get i = name.getD i 0)
    (hnul : ∀ b ∈ name, b ≠ 0) (hlen : name.length ≤ 31) :
    controllerName.strlen = some name.length := by
  refine Block.strlen_eq_some_iff.mpr ⟨by omega, ?_, fun i hi hzero => ?_⟩
  · exact (get_stored_eq_zero_iff hstored hnul (by omega)).mpr (le_refl _)
  · have hend := (get_stored_eq_zero_iff hstored hnul (by omega)).mp hzero
    omega

/-- The stored name ends in its array exactly when it has at most 31 bytes. -/
theorem nameCopyInside_iff (hstored : ∀ i < 32, controllerName.get i = name.getD i 0)
    (hnul : ∀ b ∈ name, b ≠ 0) : NameCopyInside controllerName ↔ name.length ≤ 31 := by
  constructor
  · rintro ⟨k, hk, hlen⟩
    have hend := (get_stored_eq_zero_iff hstored hnul hk).mp
      (Block.strlen_eq_some_iff.mp hlen).2.1
    omega
  · intro hlen
    exact ⟨name.length, by omega, strlen_stored hstored hnul hlen⟩

/-- No response has the intended total. -/
theorem not_responseIntended : ¬ResponseIntended name controllerName localAddr := by
  rintro ⟨-, D, hD, hdecode⟩
  rw [discoveryResponse_eq, Outcome.map_eq_ok_iff] at hD
  obtain ⟨r, -, rfl⟩ := hD
  have htotal := congrArg ResponseFields.maxTotalChannels hdecode
  rw [decodeResponse, (responseTail_fields r).1] at htotal
  have hbad : fromWire32 ((ntohs 4800).setWidth 32) = 4800 := htotal
  exact absurd hbad (by decide)

/-- Everything else is as intended for the names that end in their array. -/
theorem responseIntendedButTotal_iff (hstored : ∀ i < 32, controllerName.get i = name.getD i 0)
    (hnul : ∀ b ∈ name, b ≠ 0) :
    ResponseIntendedButTotal name controllerName localAddr ↔ name.length ≤ 31 := by
  rw [← nameCopyInside_iff hstored hnul]
  refine ⟨And.left, fun hinside => ⟨hinside, ?_⟩⟩
  have hlen := (nameCopyInside_iff hstored hnul).mp hinside
  refine ⟨_, ?_, decodeResponse_eq hstored⟩
  have hfit : Block.CopyFits 88 48 ((40 : ℕ) : ℤ) 0 (name.length + 1) := by
    rw [Block.CopyFits]
    omega
  rw [discoveryResponse_eq, Block.strcpy, strlen_stored hstored hnul hlen]
  simp only
  rw [Block.memcpy_of_fits hfit]
  rfl

end

end Zcpp

/-- For every configuration file, every value of the two pointers behind the name and every local
address: the response is never the intended one, since a receiver reads another total number of
channels; up to that it is the intended one, and the copy of the name stays inside, exactly when
the name has at most 31 bytes. -/
theorem discovery_response_iff (file : ConfigFile) (pointers : Block 16) (localAddr : BitVec 32)
    (hnul : ∀ b ∈ file.controllerNameSetting, b ≠ 0) :
    ¬Zcpp.ResponseIntended file.controllerNameSetting (file.zcppControllerName pointers)
        localAddr ∧
      (Zcpp.ResponseIntendedButTotal file.controllerNameSetting
          (file.zcppControllerName pointers) localAddr ↔
        file.controllerNameSetting.length ≤ 31) :=
  ⟨Zcpp.not_responseIntended,
    Zcpp.responseIntendedButTotal_iff (fun _ hi => file.get_zcppControllerName pointers hi) hnul⟩

/-- `discovery_response_iff` for a file without the setting. -/
theorem discovery_response_sample :
    Zcpp.ResponseIntendedButTotal ConfigFile.defaultControllerName
      ((default : ConfigFile).zcppControllerName default) 0x0100007F :=
  (discovery_response_iff default default 0x0100007F (by decide)).2.mpr (by decide)

/-- The response to a file without the setting is not the intended one. -/
theorem not_discovery_response_sample :
    ¬∀ (file : ConfigFile) (pointers : Block 16) (localAddr : BitVec 32),
      (∀ b ∈ file.controllerNameSetting, b ≠ 0) →
        Zcpp.ResponseIntended file.controllerNameSetting (file.zcppControllerName pointers)
          localAddr := by
  intro h
  exact Zcpp.not_responseIntended (h default default 0 (by decide))

end PiPixelController
