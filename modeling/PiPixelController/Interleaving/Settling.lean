import PiPixelController.CSemantics.Schedules
import PiPixelController.Interleaving.Consistency
import PiPixelController.Interleaving.Mixtures

/-!
# After the last configuration

A configuration that is stored while the worker packs a port may spoil the frame of that port. Here
no further configuration arrives and the handler makes no store, so that only the worker runs, from
wherever it is.

* `Threads.load_progress` — a load gets the worker to the next port or closer to it;
* `exists_nextPort` — it gets there, and sends at most one frame on the way;
* `AtPort.exists_next` — from one port to the next it sends the frame of the port;
* `frames_settle` — apart from at most one, all frames are those of the stored mapping, for one port
  after the other.
-/

namespace PiPixelController

open CSemantics

/-- Only the worker makes steps. -/
def WorkerOnly (_ : Threads) : Act → Prop
  | .load _ => True
  | .receive _ | .store => False

/-- A step of the worker. -/
def WorkerStep (s s' : Threads) : Prop := ∃ a, WorkerOnly s a ∧ s.step a = .ok s'

/-- The frames of a port: none when it is skipped. -/
def portFrames (c : Controller) (p : Fin 4) : List (Fin 4 × List Byte) :=
  if (p : ℤ) < c.workers.pixelPorts.toInt then [(p, portFrame c p)] else []

/-- The frames of the `n` ports after the one the worker is at. -/
def Threads.nextFrames (s : Threads) (n : ℕ) : List (Fin 4 × List Byte) :=
  (List.range n).flatMap fun i =>
    portFrames s.controller (Threads.nextPort^[i] (Threads.nextPort s.port))

/-- An upper bound for the loads that are left in the block of the port. -/
def WorkerPc.left : WorkerPc → ℕ
  | .gate => 42
  | .strings rest => 5 * rest.length + 1
  | .test _ rest => 5 * rest.length + 5
  | .start _ rest => 5 * rest.length + 4
  | .copy _ rest _ => 5 * rest.length + 3
  | .advance _ rest => 5 * rest.length + 2

section

variable {s s' : Threads} {ret : ℤ}

theorem workerStep_iff : WorkerStep s s' ↔ ∃ ret, s.load ret = .ok s' := by
  constructor
  · rintro ⟨a, ha, hstep⟩
    cases a with
    | load ret => exact ⟨ret, hstep⟩
    | receive P => exact absurd ha id
    | store => exact absurd ha id
  · rintro ⟨ret, hload⟩
    exact ⟨.load ret, trivial, hload⟩

/-- What the `ioctl` returns makes no difference. -/
theorem Threads.load_ret (s : Threads) (ret ret' : ℤ) : s.load ret = s.load ret' := by
  have htransfer : ∀ p b c, transferPort p ret b c = transferPort p ret' b c := by
    intro p b c
    simp only [transferPort, spiTransfer]
    split <;> rfl
  rw [Threads.load, Threads.load]
  simp only [htransfer]

theorem rightUnique_workerStep : Relator.RightUnique WorkerStep := by
  intro s t t' h h'
  obtain ⟨ret, hload⟩ := workerStep_iff.mp h
  obtain ⟨ret', hload'⟩ := workerStep_iff.mp h'
  rw [s.load_ret ret' ret, hload] at hload'
  exact Outcome.ok.inj hload'

/-- A load gets the worker to the next port, where at most one frame has been sent, or closer to
it. -/
theorem Threads.load_progress (h : s.load ret = .ok s') :
    (s'.pc = .gate ∧ s'.port = Threads.nextPort s.port ∧
      ∃ late, s'.sent = s.sent ++ late ∧ late.length ≤ 1) ∨
    (s'.pc.left < s.pc.left ∧ s'.port = s.port ∧ s'.sent = s.sent) := by
  rw [Threads.load] at h
  cases hpc : s.pc with
  | gate =>
      simp only [hpc] at h
      split at h
      · -- eight strings with at most five loads each are ahead
        obtain rfl := Outcome.ok.inj h
        refine Or.inr ⟨?_, rfl, rfl⟩
        simp only [WorkerPc.left, List.length_finRange]
        omega
      · -- a port from `pixel_ports` on is skipped without a frame
        obtain rfl := Outcome.ok.inj h
        exact Or.inl ⟨rfl, rfl, [], (List.append_nil _).symm, by decide⟩
  | strings rest =>
      simp only [hpc] at h
      cases rest with
      | nil =>
          -- the only load that sends
          obtain ⟨r, htransfer, h⟩ := Outcome.bind_eq_ok_iff.mp h
          obtain rfl := Outcome.ok.inj h
          refine Or.inl ⟨rfl, rfl, _, rfl, ?_⟩
          rw [List.length_map, (transferPort_same htransfer).2]
      | cons a rest =>
          obtain rfl := Outcome.ok.inj h
          refine Or.inr ⟨?_, rfl, rfl⟩
          simp only [WorkerPc.left, List.length_cons]
          omega
  | test a rest =>
      simp only [hpc] at h
      -- whichever way the `if` goes, the string is nearer to its end
      split at h <;>
      · obtain rfl := Outcome.ok.inj h
        refine Or.inr ⟨?_, rfl, rfl⟩
        simp only [WorkerPc.left]
        omega
  | start a rest =>
      simp only [hpc] at h
      obtain rfl := Outcome.ok.inj h
      exact Or.inr ⟨Nat.lt_succ_self _, rfl, rfl⟩
  | copy a rest startChannel =>
      simp only [hpc] at h
      obtain ⟨data, -, h⟩ := Outcome.bind_eq_ok_iff.mp h
      obtain rfl := Outcome.ok.inj h
      exact Or.inr ⟨Nat.lt_succ_self _, rfl, rfl⟩
  | advance a rest =>
      simp only [hpc] at h
      obtain rfl := Outcome.ok.inj h
      exact Or.inr ⟨Nat.lt_succ_self _, rfl, rfl⟩

/-- What stays while only the worker runs. -/
structure Threads.Settled (s s' : Threads) : Prop where
  same : SameExceptOutput s.controller s'.controller
  sent : s.sent <+: s'.sent

theorem Threads.Settled.refl (s : Threads) : s.Settled s := ⟨.refl _, List.prefix_rfl⟩

theorem WorkerStep.settled (h : WorkerStep s s') : s.Settled s' := by
  obtain ⟨ret, hload⟩ := workerStep_iff.mp h
  refine ⟨(Threads.load_same hload).1, ?_⟩
  rcases Threads.load_progress hload with ⟨-, -, late, hsent, -⟩ | ⟨-, -, hsent⟩
  · exact ⟨late, hsent.symm⟩
  · rw [hsent]

theorem settled_of_run (h : Relation.ReflTransGen WorkerStep s s') : s.Settled s' := by
  induction h with
  | refl => exact .refl s
  | tail _ hstep ih =>
      exact ⟨ih.same.trans hstep.settled.same, ih.sent.trans hstep.settled.sent⟩

theorem portFrames_congr {c c' : Controller} (h : SameExceptOutput c c') (p : Fin 4) :
    portFrames c' p = portFrames c p := by
  rw [portFrames, portFrames, portFrame, portFrame, h.workers, h.pixelBuffer]

end

/-! ### From port to port -/

section

variable {S : Set ConfigPacket} {c₀ : Controller} {s s' : Threads}

/-- The stations of the worker after it has come to `y₀`: it has sent the frames of the next `n`
ports. -/
structure AtPort (S : Set ConfigPacket) (c₀ : Controller) (y₀ : Threads) (n : ℕ) (y : Threads) :
    Prop where
  safe : Safe S c₀ y
  pc : y.pc = .gate
  port : y.port = Threads.nextPort^[n] y₀.port
  same : SameExceptOutput y₀.controller y.controller
  sent : y.sent.map Frame.message = y₀.sent.map Frame.message ++
    (List.range n).flatMap fun i => portFrames y₀.controller (Threads.nextPort^[i] y₀.port)

variable (hsafe : ∀ m, Mixture S m → Packable c₀.workers.pixelPorts m)

include hsafe

/-- The worker's next step, and what it keeps. -/
theorem Safe.exists_workerStep (h : Safe S c₀ s) : ∃ s', s.load 0 = .ok s' ∧ Safe S c₀ s' := by
  obtain ⟨s', hload, hpc⟩ := h.exists_load hsafe 0
  exact ⟨s', hload, h.stores.load hload, hpc⟩

/-- From anywhere the worker gets to the next port, and sends at most one frame on the way. -/
theorem exists_nextPort (h : Safe S c₀ s) :
    ∃ s' late, Relation.TransGen WorkerStep s s' ∧ Safe S c₀ s' ∧ s'.pc = .gate ∧
      s'.port = Threads.nextPort s.port ∧ s'.sent = s.sent ++ late ∧ late.length ≤ 1 := by
  -- on a bound for the loads that are left
  obtain ⟨n, hn⟩ : ∃ n, s.pc.left ≤ n := ⟨_, le_rfl⟩
  induction n generalizing s with
  | zero => cases hpc : s.pc <;> simp [hpc, WorkerPc.left] at hn
  | succ n ih =>
      obtain ⟨t, hload, ht⟩ := h.exists_workerStep hsafe
      have hstep : WorkerStep s t := workerStep_iff.mpr ⟨0, hload⟩
      rcases Threads.load_progress hload with ⟨hpc, hport, late, hsent, hlate⟩ |
        ⟨hlt, hport, hsent⟩
      -- the load ends the block, or the induction goes on from where it leads
      · exact ⟨t, late, .single hstep, ht, hpc, hport, hsent, hlate⟩
      · obtain ⟨s', late, hrun, hs', hpc', hport', hsent', hlate⟩ := ih ht (by omega)
        exact ⟨s', late, .head hstep hrun, hs', hpc', hport'.trans (by rw [hport]),
          hsent'.trans (by rw [hsent]), hlate⟩

/-- Safe states stay safe while the worker runs. -/
theorem Safe.of_run (h : Safe S c₀ s) (hrun : Relation.ReflTransGen WorkerStep s s') :
    Safe S c₀ s' := by
  induction hrun with
  | refl => exact h
  | tail _ hstep ih =>
      -- the step that is made is the one that is known to be safe
      obtain ⟨t, hload, ht⟩ := ih.exists_workerStep hsafe
      obtain rfl := rightUnique_workerStep hstep (workerStep_iff.mpr ⟨0, hload⟩)
      exact ht

/-- From one port the worker gets to the next one and sends the frame of the port. -/
theorem exists_portFrames (h : Safe S c₀ s) (hpc : s.pc = .gate) :
    ∃ s', Relation.TransGen WorkerStep s s' ∧ s'.pc = .gate ∧
      s'.port = Threads.nextPort s.port ∧
      s'.sent.map Frame.message = s.sent.map Frame.message ++ portFrames s.controller s.port := by
  by_cases hlt : (s.port : ℤ) < s.controller.workers.pixelPorts.toInt
  · have hpack : PortPackable s.controller.workers.mapping s.port :=
      hsafe _ h.stores.mixture s.port (h.stores.pixelPorts ▸ hlt)
    obtain ⟨c', events, hworker, hsent⟩ := workerPort_of_packable hpack 0
    -- without a store in between, the loads of the block are the block in one piece
    obtain ⟨s', hreaches, -, -, hport, hpc', hmessages⟩ :=
      @reaches_of_workerPort WorkerOnly s (fun _ _ => trivial) hpc hlt 0 c' events hworker
    refine ⟨s', ?_, hpc', hport, ?_⟩
    · -- the port has changed, so there is at least one step
      rcases Relation.reflTransGen_iff_eq_or_transGen.mp hreaches with rfl | hrun
      · omega
      · exact hrun
    · rw [hmessages, hsent.frames_eq, portFrames, if_pos hlt]
  · have hload : s.load 0 = .ok { s with port := s.port + 1 } := by
      rw [Threads.load, hpc]
      exact if_neg hlt
    refine ⟨_, .single (workerStep_iff.mpr ⟨0, hload⟩), hpc, rfl, ?_⟩
    rw [portFrames, if_neg hlt, List.append_nil]

theorem AtPort.exists_next {y₀ y : Threads} {n : ℕ} (h : AtPort S c₀ y₀ n y) :
    ∃ y', Relation.TransGen WorkerStep y y' ∧ AtPort S c₀ y₀ (n + 1) y' := by
  obtain ⟨y', hrun, hpc, hport, hsent⟩ := exists_portFrames hsafe h.safe h.pc
  refine ⟨y', hrun, h.safe.of_run hsafe hrun.to_reflTransGen, hpc, ?_,
    h.same.trans (settled_of_run hrun.to_reflTransGen).same, ?_⟩
  · rw [hport, h.port, Function.iterate_succ_apply']
  · rw [hsent, h.sent, portFrames_congr h.same, h.port, List.range_succ, List.flatMap_append,
      List.flatMap_singleton, List.append_assoc]

theorem exists_atPort {y₀ : Threads} (h : Safe S c₀ y₀) (hpc : y₀.pc = .gate) (n : ℕ) :
    ∃ y, Relation.ReflTransGen WorkerStep y₀ y ∧ AtPort S c₀ y₀ n y := by
  induction n with
  | zero =>
      refine ⟨y₀, .refl, h, hpc, rfl, .refl _, ?_⟩
      rw [List.range_zero, List.flatMap_nil, List.append_nil]
  | succ n ih =>
      obtain ⟨y, hrun, hy⟩ := ih
      obtain ⟨y', hrun', hy'⟩ := hy.exists_next hsafe
      exact ⟨y', hrun.trans hrun'.to_reflTransGen, hy'⟩

end

/-- While the worker runs alone, from any state of any run that starts with a mixture of the
configurations, all mixtures of which are packable, it sends at most one frame before it comes to
the next port. From then on it sends, for one port after the other, the frames of the mapping and
the pixel buffer that are stored: it gets as far as one likes, and whatever it sends is the
beginning of that. -/
theorem frames_settle {S : Set ConfigPacket} {c₀ : Controller} {s : Threads}
    (hin : ∀ P ∈ S, P.InTable) (hinit : Mixture S c₀.workers.mapping)
    (hsafe : ∀ m, Mixture S m → Packable c₀.workers.pixelPorts m)
    (h : Reaches (Sends S) (Threads.init c₀) s) :
    ∃ late : List (Fin 4 × List Byte), late.length ≤ 1 ∧
      (∀ n, ∃ s', Reaches WorkerOnly s s' ∧
        s'.sent.map Frame.message = s.sent.map Frame.message ++ late ++ s.nextFrames n) ∧
      ∀ s', Reaches WorkerOnly s s' →
        ∃ n, s'.sent.map Frame.message <+:
          s.sent.map Frame.message ++ late ++ s.nextFrames n := by
  have hs : Safe S c₀ s := safe_of_reaches hin hinit hsafe h
  obtain ⟨y₀, late, hfirst, hy₀, hpc, hport, hsent, hlate⟩ := exists_nextPort hsafe hs
  have hfirst := hfirst.to_reflTransGen
  -- what is sent at each station, with the memory as it was in `s`
  have hframes : ∀ n y, AtPort S c₀ y₀ n y → y.sent.map Frame.message =
      s.sent.map Frame.message ++ late.map Frame.message ++ s.nextFrames n := by
    intro n y hy
    simp only [hy.sent, hsent, List.map_append, Threads.nextFrames, hport,
      portFrames_congr (settled_of_run hfirst).same]
  refine ⟨late.map Frame.message, by rwa [List.length_map], fun n => ?_, fun s' hrun => ?_⟩
  · obtain ⟨y, hrun, hy⟩ := exists_atPort hsafe hy₀ hpc n
    exact ⟨y, hfirst.trans hrun, hframes n y hy⟩
  · -- wherever the worker is, a station is ahead, and what is sent only grows
    obtain ⟨y₁, hrun₁, hy₁⟩ := exists_atPort hsafe hy₀ hpc 0
    obtain ⟨n, y, hy, hahead⟩ := exists_station rightUnique_workerStep
      (fun n y hy => hy.exists_next hsafe) (hfirst.trans hrun₁) hy₁ hrun
    exact ⟨n, hframes n y hy ▸ (settled_of_run hahead).sent.map Frame.message⟩

/-- `frames_settle` from a state in which the handler has begun to store `Q` after the worker has
loaded the count of string 0 for the header. -/
theorem frames_settle_sample :
    let P : ConfigPacket := .encode 1 [⟨0, 0, 0, 1⟩] (by decide)
    let Q : ConfigPacket := .encode 2 [] (by decide)
    ∃ s, (Reaches (Sends {P, Q}) (Threads.init sampleController) s ∧ s.held = some (0, 0)) ∧
      ∃ late : List (Fin 4 × List Byte), late.length ≤ 1 ∧
        (∀ n, ∃ s', Reaches WorkerOnly s s' ∧
          s'.sent.map Frame.message = s.sent.map Frame.message ++ late ++ s.nextFrames n) ∧
        ∀ s', Reaches WorkerOnly s s' →
          ∃ n, s'.sent.map Frame.message <+:
            s.sent.map Frame.message ++ late ++ s.nextFrames n := by
  intro P Q
  have hentriesP : P.entries = [⟨0, 0, 0, 1⟩] := ConfigPacket.entries_encode ..
  have hentriesQ : Q.entries = [] := ConfigPacket.entries_encode ..
  have hin : ∀ R ∈ ({P, Q} : Set ConfigPacket), R.InTable := by
    rintro R (rfl | rfl) <;> exact ConfigPacket.inTable_encode.mpr (by simp [PortConfig.InTable])
  have hone : 1 ∈ Stored {P, Q} Cell.channelCount (0, 0) :=
    Or.inr ⟨P, Or.inl rfl, _, hentriesP ▸ List.mem_cons_self, by decide, rfl⟩
  have hinit : Mixture {P, Q} sampleController.workers.mapping := by
    have hmapping : sampleController.workers.mapping =
        Function.update Workers.zero.mapping (0, 0) ⟨1, 0⟩ := by
      rw [sampleController, Workers.mapping_setFields, Workers.mapping_setCell]
      rfl
    rw [hmapping]
    exact Mixture.update ⟨fun _ => zero_mem_stored _, fun _ => zero_mem_stored _⟩ hone
      (zero_mem_stored _)
  have hstored : ∀ field : Cell → BitVec 32, ∀ k, ∀ v ∈ Stored {P, Q} field k,
      v = 0 ∨ v = field ⟨1, 0⟩ := by
    rintro field k v (hv | ⟨R, rfl | rfl, e, he, -, rfl⟩)
    · exact Or.inl hv
    · rw [hentriesP, List.mem_singleton] at he
      exact Or.inr (he ▸ rfl)
    · rw [hentriesQ] at he
      cases he
  have hsafe : ∀ m, Mixture {P, Q} m → Packable sampleController.workers.pixelPorts m := by
    intro m hm p _
    have hcount : ∀ k, (m k).channelCount = 0 ∨ (m k).channelCount = 1 := fun k =>
      hstored _ k _ (hm.channelCount k)
    have hstart : ∀ k, (m k).startChannel = 0 := fun k =>
      (hstored _ k _ (hm.startChannel k)).elim id id
    refine ⟨fun a => ?_, ?_⟩
    · rw [Cell.InBuffer, hstart]
      rcases hcount (p, a) with h | h <;> (rw [h]; decide)
    · calc portCount m p ≤ ((List.finRange 8).map fun _ => (1 : ℤ)).sum :=
            List.sum_le_sum fun a _ => by rcases hcount (p, a) with h | h <;> (rw [h]; decide)
        _ ≤ 19200 := by decide
  -- the header count of string 0 is stored, then the handler makes its first store
  have hrun : ∃ s, Reaches (Sends {P, Q}) (Threads.init sampleController) s ∧
      s.held = some (0, 0) := by
    have hreceive : Reaches (Sends {P, Q}) (Threads.init sampleController) _ :=
      .head ⟨.load 0, trivial, rfl⟩ (.head ⟨.load 0, trivial, rfl⟩
        (.single ⟨.receive Q, Or.inr rfl, rfl⟩))
    obtain ⟨s, hstore, -, hsame⟩ := (stores_of_reaches hin hinit hreceive).store
    refine ⟨s, hreceive.tail ⟨.store, trivial, hstore⟩, ?_⟩
    rw [Threads.held, hsame.pc, hsame.port]
    rfl
  obtain ⟨s, hs, hheld⟩ := hrun
  exact ⟨s, ⟨hs, hheld⟩, frames_settle hin hinit hsafe hs⟩

end PiPixelController
