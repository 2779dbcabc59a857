import PiPixelController.System.Failures

/-!
# Where the discovery responses go

The ZCPP listeners answer a discovery packet at the address `recvfrom` stored in `servaddr`.
`recvfrom` stores as many bytes of the sender's address as `len` says there is room for, and sets
`len` to the length of the address. `zcpp_listen` initialises both before its loop,
`zcpp_multicast_listen` neither of them: its first call works with whatever the stack held.

* `answersRequester_iff` — after any run, the next response is certain to go to the sender of the
  packet it answers exactly when `len` left room for the address and port from the start, or was not
  negative and a datagram has been received since.
-/

namespace PiPixelController

open CSemantics

/-- `struct sockaddr_in`: `sin_family`, `sin_port` at 2, `sin_addr` at 4, eight bytes of padding. -/
abbrev SockaddrIn := Block 16

/-- A datagram and the address of its sender. -/
structure Reception where
  datagram : Datagram
  sender : SockaddrIn

namespace Zcpp

/-- `servaddr` of `zcpp_send_discovery_response`: cleared, then the address and port of `server` and
`AF_INET`. -/
def responseAddr (server : SockaddrIn) : SockaddrIn :=
  let servaddr : SockaddrIn := fun _ => 0
  let servaddr := servaddr.copy 4 server 4 4
  let servaddr := servaddr.copy 2 server 2 2
  servaddr.write 0 [0x02, 0x00]

/-- A response, with the address it is sent to. -/
structure Response where
  packet : Block 88
  addr : SockaddrIn

/-- A ZCPP listener between two iterations. -/
structure Listener where
  controller : Controller
  servaddr : SockaddrIn
  len : BitVec 32

namespace Listener

/-- The address `recvfrom` stores: at most `len` bytes of it, and `len` becomes its full length.
With a negative `len` the call fails after the datagram is copied, and stores nothing. -/
def storeSender (l : Listener) : Option Reception → Listener
  | some r =>
      if l.len.toInt < 0 then l
      else { l with
        servaddr := l.servaddr.copy 0 r.sender 0 (min l.len.toNat 16)
        len := 16 }
  | none => l

/-- One iteration, with the response it sends. -/
def step (controllerName : Block 48) (l : Listener) (net : Network) (recv : Option Reception) :
    Outcome (Listener × Option Response) := do
  let l := l.storeSender recv
  let (c, packet) ←
    zcppMulticastListen controllerName net (recv.map Reception.datagram) l.controller
  return ({ l with controller := c }, packet.map fun packet => ⟨packet, responseAddr l.servaddr⟩)

/-- The iterations of the loop, each with what `recvfrom` receives. -/
def run (controllerName : Block 48) (l : Listener) (its : List (Network × Option Reception)) :
    Outcome Listener :=
  its.foldlM (fun l it => Prod.fst <$> l.step controllerName it.1 it.2) l

/-- `zcpp_listen` before its loop: `servaddr` is cleared and `len` is its size. Its loop is that of
`zcpp_multicast_listen`. -/
def unicast (c : Controller) : Listener := ⟨c, fun _ => 0, 16⟩

/-- Whoever sends the next datagram, a response to it is sent to the sender's address and port. -/
def AnswersRequester (controllerName : Block 48) (l : Listener) : Prop :=
  ∀ net r l' response, l.step controllerName net (some r) = .ok (l', some response) →
    response.addr = responseAddr r.sender

end Listener

/-! ### The address of a response -/

section

variable {controllerName : Block 48} {l l' : Listener} {server server' : SockaddrIn}

/-- The response goes to the address and port of `server`. -/
theorem get_responseAddr {i : ℕ} (hi : 2 ≤ i) (hi' : i < 8) :
    (responseAddr server).get i = server.get i := by
  rw [responseAddr, Block.get_write_of_notMem _ (Or.inr (by simpa using hi)),
    Block.get_copy _ _ _ _ _ (by omega)]
  split
  -- a byte of the port, or one of the address
  next => congr 1; omega
  next =>
    rw [Block.get_copy _ _ _ _ _ (by omega), if_pos (by omega)]
    congr 1
    omega

/-- Nothing else of `server` matters. -/
theorem responseAddr_congr (h : ∀ i, 2 ≤ i → i < 8 → server.get i = server'.get i) :
    responseAddr server = responseAddr server' := by
  apply Block.ext_get
  intro i hi
  by_cases hmem : 2 ≤ i ∧ i < 8
  · rw [get_responseAddr hmem.1 hmem.2, get_responseAddr hmem.1 hmem.2, h i hmem.1 hmem.2]
  · -- the rest is the family and padding
    simp only [responseAddr]
    have hlen : ([0x02, 0x00] : List Byte).length = 2 := rfl
    by_cases hlo : i < 2
    · have hin : i - 0 < ([0x02, 0x00] : List Byte).length := by
        rw [hlen]
        omega
      rw [Block.get_write_of_mem _ hi (Nat.zero_le i) hin,
        Block.get_write_of_mem _ hi (Nat.zero_le i) hin]
    · have hout : i < 0 ∨ 0 + ([0x02, 0x00] : List Byte).length ≤ i := by
        rw [hlen]
        omega
      rw [Block.get_write_of_notMem _ hout, Block.get_write_of_notMem _ hout,
        Block.get_copy_of_notMem _ _ _ _ _ (by omega),
        Block.get_copy_of_notMem _ _ _ _ _ (by omega),
        Block.get_copy_of_notMem _ _ _ _ _ (by omega),
        Block.get_copy_of_notMem _ _ _ _ _ (by omega)]

/-- Only a discovery packet is answered. -/
theorem sendDiscoveryResponse_of_listen {net : Network} {recv : Option Datagram}
    {c c' : Controller} {packet : Block 88}
    (h : zcppMulticastListen controllerName net recv c = .ok (c', some packet)) :
    sendDiscoveryResponse controllerName net = .ok packet := by
  rcases zcppMulticastListen_cases h with ⟨-, D, hD, hr⟩ | ⟨-, c₁, -, hr⟩ | ⟨-, c₁, -, hr⟩ | hr
  · cases hr
    exact hD
  all_goals cases hr

namespace Listener

/-- With room for eight bytes the address and port of the sender are stored. -/
theorem responseAddr_storeSender (hlen : 8 ≤ l.len.toInt) (r : Reception) :
    responseAddr (l.storeSender (some r)).servaddr = responseAddr r.sender := by
  have htoNat : 8 ≤ l.len.toNat := by
    have := BitVec.toInt_eq_toNat_cond l.len
    split at this <;> omega
  rw [storeSender, if_neg (by omega)]
  apply responseAddr_congr
  intro i hlo hhi
  rw [Block.get_copy _ _ _ _ _ (by omega), if_pos (by omega)]
  congr 1
  omega

/-- Without it the last byte of the address is what it was. -/
theorem get_storeSender_of_lt (hlen : l.len.toInt < 8) (r : Reception) :
    (l.storeSender (some r)).servaddr.get 7 = l.servaddr.get 7 := by
  rw [storeSender]
  split
  next => rfl
  next hneg =>
    have htoNat : l.len.toNat < 8 := by
      have := BitVec.toInt_eq_toNat_cond l.len
      split at this <;> omega
    exact Block.get_copy_of_notMem _ _ _ _ _ (by omega)

/-- A response is sent to the stored address. -/
theorem addr_of_step {net : Network} {recv : Option Reception} {response : Response}
    (h : l.step controllerName net recv = .ok (l', some response)) :
    response.addr = responseAddr (l.storeSender recv).servaddr := by
  obtain ⟨⟨c, packet⟩, -, h⟩ := Outcome.bind_eq_ok_iff.mp h
  cases packet with
  | none => cases h
  | some packet =>
      cases h
      rfl

/-- A response is sent only if the name ends in the parameter. -/
theorem strlen_of_step {net : Network} {recv : Option Reception} {response : Response}
    (h : l.step controllerName net recv = .ok (l', some response)) :
    controllerName.strlen ≠ none := by
  obtain ⟨⟨c, packet⟩, hlisten, h⟩ := Outcome.bind_eq_ok_iff.mp h
  cases packet with
  | none => cases h
  | some packet =>
      obtain ⟨D, hD⟩ : ∃ D, discoveryResponse controllerName net.localAddr = .ok D := by
        have hsend := sendDiscoveryResponse_of_listen hlisten
        rw [sendDiscoveryResponse] at hsend
        split at hsend
        · exact ⟨packet, hsend⟩
        · cases hsend
      exact Option.isSome_iff_ne_none.mp (exists_discoveryResponse_iff.mp ⟨D, hD⟩)

/-- A discovery packet. -/
def discoveryDatagram : Datagram := ⟨token ++ [0x00], by decide⟩

/-- A discovery packet is answered when the name ends in the parameter. -/
theorem exists_step_discovery (l : Listener) (hname : controllerName.strlen ≠ none)
    (sender : SockaddrIn) :
    ∃ l' response, l.step controllerName ⟨true, 0⟩ (some ⟨discoveryDatagram, sender⟩) =
      .ok (l', some response) := by
  obtain ⟨D, hD⟩ := @exists_discoveryResponse_iff controllerName 0 |>.mpr
    (Option.isSome_iff_ne_none.mpr hname)
  have hreceived : received (EthBuffer.recvfrom l.controller.zcppEthBuffer
      (some discoveryDatagram)) = some .discovery := by
    have hlen : discoveryDatagram.bytes.length = 5 := rfl
    rw [@received_congr _ discoveryDatagram.eth fun i hi =>
      discoveryDatagram.get_recvfrom _ (by omega)]
    decide
  have hlisten : zcppMulticastListen controllerName ⟨true, 0⟩ (some discoveryDatagram)
      (l.storeSender (some ⟨discoveryDatagram, sender⟩)).controller =
        .ok ({ l.controller with
          zcppEthBuffer :=
            EthBuffer.recvfrom l.controller.zcppEthBuffer (some discoveryDatagram) },
          some D) := by
    have hcontroller : (l.storeSender (some ⟨discoveryDatagram, sender⟩)).controller =
        l.controller := by
      rw [storeSender]
      split <;> rfl
    rw [hcontroller, zcppMulticastListen, dispatch, hreceived]
    change (discoveryResponse controllerName 0 >>= _) = _
    rw [hD]
    rfl
  exact ⟨_, _, Outcome.bind_eq_ok_iff.mpr ⟨_, hlisten, rfl⟩⟩

/-- The next response is certain to go to the sender of its packet exactly when there is room for
the address and port. -/
theorem answersRequester_iff_len :
    l.AnswersRequester controllerName ↔ controllerName.strlen = none ∨ 8 ≤ l.len.toInt := by
  constructor
  · -- the bytes that do not fit into `len` stay those of the stack
    intro h
    by_contra hnot
    rw [not_or] at hnot
    -- a sender whose last address byte is not the one on the stack
    let sender : SockaddrIn := fun _ => l.servaddr.get 7 + 1
    obtain ⟨l', response, hstep⟩ := exists_step_discovery l hnot.1 sender
    have haddr := h _ ⟨discoveryDatagram, sender⟩ l' response hstep
    rw [addr_of_step hstep] at haddr
    have hbyte := congrArg (Block.get · 7) haddr
    rw [get_responseAddr (by omega) (by omega), get_responseAddr (by omega) (by omega),
      get_storeSender_of_lt (not_le.mp hnot.2)] at hbyte
    have hne : ∀ b : Byte, b ≠ b + 1 := by decide
    exact hne _ hbyte
  · rintro (hname | hroom) net r l' response hstep
    · exact absurd hname (strlen_of_step hstep)
    · rw [addr_of_step hstep, responseAddr_storeSender hroom]

/-- One iteration: a received datagram leaves room for a whole address, unless `len` is negative. -/
theorem len_of_step {net : Network} {recv : Option Reception} {response : Option Response}
    (h : l.step controllerName net recv = .ok (l', response)) :
    l'.len = if l.len.toInt < 0 ∨ recv = none then l.len else 16 := by
  obtain ⟨⟨c, packet⟩, -, h⟩ := Outcome.bind_eq_ok_iff.mp h
  cases h
  cases recv with
  | none => simp [storeSender]
  | some r =>
      change (l.storeSender (some r)).len = _
      rw [storeSender]
      split <;> simp [*]

/-- After a run there is room for a whole address if a datagram was received in it, unless `len` was
negative. -/
theorem len_of_run {its : List (Network × Option Reception)}
    (hrun : l.run controllerName its = .ok l') :
    l'.len = if l.len.toInt < 0 ∨ ∀ it ∈ its, it.2 = none then l.len else 16 := by
  refine Outcome.foldlM_partial
    (fun pre l' => l'.len = if l.len.toInt < 0 ∨ ∀ it ∈ pre, it.2 = none then l.len else 16)
    (by simp) ?_ hrun
  intro pre it post _ l₁ l₂ hl₁ hstep
  obtain ⟨⟨l₂', response⟩, hl₂, rfl⟩ := Outcome.map_eq_ok_iff.mp hstep
  rw [len_of_step hl₂, hl₁]
  simp only [List.forall_mem_append, List.forall_mem_singleton]
  -- a `len` that is not negative never becomes negative
  by_cases hneg : l.len.toInt < 0
  · simp only [hneg, true_or, if_true]
  · simp only [hneg, false_or]
    by_cases hpre : ∀ it ∈ pre, it.2 = none
    · simp only [if_pos hpre, hneg, false_or, and_iff_right hpre]
    · rw [if_neg hpre, ite_self, if_neg fun h => hpre h.1]

/-- After any run of a listener, whatever `len` it starts with, the next response is certain to go
to the sender of the packet it answers if and only if `len` left room for the address and port from
the start, or was not negative and a datagram was received in the run (or the name does not end in
`zcppParam`, so that there are no responses). -/
theorem answersRequester_iff {its : List (Network × Option Reception)}
    (hrun : l.run controllerName its = .ok l') :
    l'.AnswersRequester controllerName ↔ controllerName.strlen = none ∨ 8 ≤ l.len.toInt ∨
      0 ≤ l.len.toInt ∧ ∃ it ∈ its, it.2 ≠ none := by
  rw [answersRequester_iff_len, len_of_run hrun]
  -- a run that received nothing leaves `len` as the stack had it
  by_cases hnone : ∀ it ∈ its, it.2 = none
  · have hnot : ¬∃ it ∈ its, it.2 ≠ none := by
      push Not
      exact hnone
    rw [if_pos (Or.inr hnone)]
    simp only [hnot, and_false, or_false]
  · have hsome : ∃ it ∈ its, it.2 ≠ none := by
      push Not at hnone
      exact hnone
    by_cases hneg : l.len.toInt < 0
    · simp only [hneg, true_or, if_true, not_le.mpr hneg, false_and, or_false]
    · rw [if_neg (not_or.mpr ⟨hneg, hnone⟩)]
      exact iff_of_true (Or.inr (by decide)) (Or.inr (Or.inr ⟨not_lt.mp hneg, hsome⟩))

/-- The unicast listener answers every requester. -/
theorem answersRequester_unicast (c : Controller) {its : List (Network × Option Reception)}
    (hrun : (unicast c).run controllerName its = .ok l) : l.AnswersRequester controllerName := by
  have hlen' := len_of_run (l := unicast c) hrun
  rw [show (unicast c).len = 16 from rfl, ite_self] at hlen'
  rw [answersRequester_iff_len, hlen']
  exact Or.inr (by decide)

end Listener

end

/-- `answersRequester_iff` for a listener that starts with a `len` of 0, before and after it has
received a discovery packet. -/
theorem Listener.answersRequester_iff_sample :
    let l : Listener := ⟨default, fun _ => 0, 0⟩
    ¬l.AnswersRequester (fun _ => 0) ∧ ∃ l', l.run (fun _ => 0)
        [(⟨true, 0⟩, some ⟨discoveryDatagram, fun _ => 7⟩)] = .ok l' ∧
      l'.AnswersRequester fun _ => 0 := by
  intro l
  have hname : Block.strlen (fun _ => 0 : Block 48) ≠ none := by decide
  constructor
  · rw [Listener.answersRequester_iff (show l.run (fun _ => 0) [] = .ok l from rfl)]
    simp only [hname, false_or, List.not_mem_nil, false_and, exists_false, and_false, or_false]
    decide
  · obtain ⟨l', response, hstep⟩ := exists_step_discovery l hname fun _ => 7
    have hrun :
        l.run (fun _ => 0) [(⟨true, 0⟩, some ⟨discoveryDatagram, fun _ => 7⟩)] = .ok l' := by
      rw [run, List.foldlM_cons, hstep]
      rfl
    refine ⟨l', hrun, (Listener.answersRequester_iff hrun).mpr (Or.inr (Or.inr ⟨by decide, ?_⟩))⟩
    simp

end Zcpp

end PiPixelController
