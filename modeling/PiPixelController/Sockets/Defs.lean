import PiPixelController.Controller.Defs

/-!
# Opening the sockets

`acn_init` (`acn.c`) and `zcpp_multicast_init` (`zcpp_implementation.c`) create a datagram socket
and bind it to a port; the second also joins the multicast group. Every call that fails ends the
process. What the system calls return is an input; the calls made are recorded in
order.
-/

namespace PiPixelController

open CSemantics

/-- What the system calls of one initialisation return. -/
structure SocketReplies where
  /-- What `socket` returns: a descriptor, or a negative number. -/
  socket : BitVec 32
  /-- What `bind` returns. -/
  bind : ℤ
  /-- What `setsockopt` returns. -/
  setsockopt : ℤ
deriving Inhabited

/-- A call an initialisation makes. -/
inductive SocketCall where
  /-- `socket(AF_INET, SOCK_DGRAM, 0)`, with what it returns. -/
  | socket (ret : BitVec 32)
  /-- `bind` to a port of `INADDR_ANY`. -/
  | bind (fd : BitVec 32) (port : BitVec 16) (ret : ℤ)
  /-- `setsockopt` with `IP_ADD_MEMBERSHIP` and a group on `INADDR_ANY`, the most significant byte
  of the group first. -/
  | addMembership (fd : BitVec 32) (group : BitVec 32) (ret : ℤ)
deriving DecidableEq

/-- `ACNSDT`. -/
def acnSdt : BitVec 16 := 5568

/-- `ZCPP_PORT`. -/
def zcppPort : BitVec 16 := 30005

/-- `ZCPP_MULTICAST_ADDRESS`: `"224.0.30.5"`. -/
def zcppMulticastAddress : BitVec 32 := 0xE0001E05

/-- The calls made so far, and how the initialisation goes on. -/
abbrev Calls (α : Type) := List SocketCall × Outcome α

/-- A socket bound to `port`; a failed call ends the process. -/
def bindSocket (r : SocketReplies) (port : BitVec 16) : Calls (BitVec 32) :=
  if r.socket.toInt < 0 then ([.socket r.socket], .exit)
  else ([.socket r.socket, .bind r.socket port r.bind],
    if r.bind < 0 then .exit else .ok r.socket)

/-- `acn_init`. -/
def acnInit (r : SocketReplies) (port : BitVec 16) : Calls (BitVec 32) := bindSocket r port

/-- `zcpp_multicast_init`. -/
def zcppMulticastInit (r : SocketReplies) : Calls (BitVec 32) :=
  match bindSocket r zcppPort with
  | (calls, .ok fd) =>
      (calls ++ [.addMembership fd zcppMulticastAddress r.setsockopt],
        if r.setsockopt < 0 then .exit else .ok fd)
  | bound => bound

/-! ### What a completed initialisation has called -/

/-- The descriptor came from `socket` and is bound to the port. -/
def BoundTo (calls : List SocketCall) (fd : BitVec 32) (port : BitVec 16) : Prop :=
  0 ≤ fd.toInt ∧ .socket fd ∈ calls ∧ ∃ ret, 0 ≤ ret ∧ .bind fd port ret ∈ calls

/-- The socket has joined the group. -/
def Joined (calls : List SocketCall) (fd group : BitVec 32) : Prop :=
  ∃ ret, 0 ≤ ret ∧ .addMembership fd group ret ∈ calls

section

variable {r : SocketReplies} {port : BitVec 16} {fd : BitVec 32} {calls calls' : List SocketCall}

theorem BoundTo.mono (h : BoundTo calls fd port) (hsub : calls ⊆ calls') :
    BoundTo calls' fd port := by
  obtain ⟨hfd, hsocket, ret, hret, hbind⟩ := h
  exact ⟨hfd, hsub hsocket, ret, hret, hsub hbind⟩

theorem Joined.mono {group : BitVec 32} (h : Joined calls fd group) (hsub : calls ⊆ calls') :
    Joined calls' fd group := by
  obtain ⟨ret, hret, hjoin⟩ := h
  exact ⟨ret, hret, hsub hjoin⟩

theorem bindSocket_eq_ok_iff :
    (bindSocket r port).2 = .ok fd ↔ 0 ≤ r.socket.toInt ∧ 0 ≤ r.bind ∧ r.socket = fd := by
  rw [bindSocket]
  split
  next h => simp [h]
  next h =>
    split
    next hbind => simp [hbind]
    next hbind => simp [not_lt.mp h, not_lt.mp hbind]

/-- A completed initialisation returns a descriptor bound to its port. -/
theorem boundTo_bindSocket (h : (bindSocket r port).2 = .ok fd) :
    BoundTo (bindSocket r port).1 fd port := by
  obtain ⟨hsocket, hbind, rfl⟩ := bindSocket_eq_ok_iff.mp h
  rw [bindSocket, if_neg (not_lt.mpr hsocket)]
  exact ⟨hsocket, by simp, r.bind, hbind, by simp⟩

/-- The process ends exactly when a call fails. -/
theorem bindSocket_eq_exit_iff :
    (bindSocket r port).2 = .exit ↔ r.socket.toInt < 0 ∨ r.bind < 0 := by
  rw [bindSocket]
  split
  next h => simp [h]
  next h =>
    split
    next hbind => simp [hbind]
    next hbind => simp [not_lt.mp h, not_lt.mp hbind]

theorem bindSocket_ne_undefined : (bindSocket r port).2 ≠ .undefined := by
  rw [bindSocket]
  split
  · simp
  · split <;> simp

/-- The group is joined on the socket that is bound. -/
theorem zcppMulticastInit_of_bound (h : (bindSocket r zcppPort).2 = .ok fd) :
    zcppMulticastInit r = ((bindSocket r zcppPort).1 ++
      [.addMembership fd zcppMulticastAddress r.setsockopt],
      if r.setsockopt < 0 then .exit else .ok fd) := by
  rw [zcppMulticastInit]
  generalize bindSocket r zcppPort = bound at h ⊢
  obtain ⟨calls, o⟩ := bound
  obtain rfl : o = .ok fd := h
  rfl

theorem zcppMulticastInit_of_exit (h : (bindSocket r zcppPort).2 = .exit) :
    (zcppMulticastInit r).2 = .exit := by
  rw [zcppMulticastInit]
  generalize bindSocket r zcppPort = bound at h ⊢
  obtain ⟨calls, o⟩ := bound
  obtain rfl : o = .exit := h
  rfl

theorem zcppMulticastInit_eq_ok_iff :
    (zcppMulticastInit r).2 = .ok fd ↔
      (bindSocket r zcppPort).2 = .ok fd ∧ 0 ≤ r.setsockopt := by
  cases hbound : (bindSocket r zcppPort).2 with
  | ok fd' =>
      rw [zcppMulticastInit_of_bound hbound]
      split
      next h => simp [h]
      next h => simp [not_lt.mp h]
  | exit => simp [zcppMulticastInit_of_exit hbound]
  | undefined => exact absurd hbound bindSocket_ne_undefined

/-- A completed initialisation returns a bound descriptor that joined the group. -/
theorem boundTo_zcppMulticastInit (h : (zcppMulticastInit r).2 = .ok fd) :
    BoundTo (zcppMulticastInit r).1 fd zcppPort ∧
      Joined (zcppMulticastInit r).1 fd zcppMulticastAddress := by
  obtain ⟨hbound, hset⟩ := zcppMulticastInit_eq_ok_iff.mp h
  rw [zcppMulticastInit_of_bound hbound]
  exact ⟨(boundTo_bindSocket hbound).mono (List.subset_append_left _ _),
    r.setsockopt, hset, by simp⟩

theorem zcppMulticastInit_eq_exit_iff :
    (zcppMulticastInit r).2 = .exit ↔ r.socket.toInt < 0 ∨ r.bind < 0 ∨ r.setsockopt < 0 := by
  rw [← or_assoc, ← @bindSocket_eq_exit_iff r zcppPort]
  cases hbound : (bindSocket r zcppPort).2 with
  | ok fd' =>
      rw [zcppMulticastInit_of_bound hbound]
      split
      next h => simp [h]
      next h => simp [h]
  | exit => simp [zcppMulticastInit_of_exit hbound]
  | undefined => exact absurd hbound bindSocket_ne_undefined

theorem zcppMulticastInit_ne_undefined : (zcppMulticastInit r).2 ≠ .undefined := by
  cases hbound : (bindSocket r zcppPort).2 with
  | ok fd' =>
      rw [zcppMulticastInit_of_bound hbound]
      split <;> simp
  | exit => simp [zcppMulticastInit_of_exit hbound]
  | undefined => exact absurd hbound bindSocket_ne_undefined

end

end PiPixelController
