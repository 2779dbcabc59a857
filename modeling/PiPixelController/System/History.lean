import PiPixelController.System.Packets
import PiPixelController.Worker.Correctness
import PiPixelController.Zcpp.ConfigRuns

/-!
# Frames as a function of the history

The system as a whole: complete, in-range packets and refreshes in any order. What a frame
holds is described from the events alone. A byte of the pixel buffer is the last value any
packet wrote to its address, and the mapping is the configuration in force.

* `follows_step` — every event keeps the state equal to what the history says;
* `exists_follows` — so does every sequence of events;
* `frames_eq_history` — every frame decodes to the eight strings the history determines.
-/

namespace PiPixelController

open CSemantics WriteLog

/-- A complete, in-range packet, or a refresh. -/
inductive Event (params : Params) where
  | acn (P : AcnPacket params.acn)
  | data (net : Network) (P : DataPacket)
  | config (net : Network) (P : ConfigPacket) (h : P.InTable)
  | refresh (rets : Fin 4 → ℤ)

namespace Event

variable {params : Params}

/-- The iteration of the loop that handles the event. -/
def action : Event params → Action
  | acn P => .acn (some P.datagram)
  | data net P => .zcpp net (some P.datagram)
  | config net P _ => P.action net
  | refresh rets => .refresh rets

/-- The bytes the event writes to the pixel buffer. -/
def patch : Event params → Patch ℕ Byte
  | acn P => P.patch
  | data _ P => P.patch
  | config _ _ _ => fun _ => none
  | refresh _ => fun _ => none

/-- The configuration packet of the event, if it is one. -/
def config? : Event params → Option ConfigPacket
  | config _ P _ => some P
  | _ => none

end Event

section

variable {params : Params}

/-- The last value written to an address, zero if there is none. -/
def lastByte (es : List (Event params)) (i : ℕ) : Byte :=
  (latest (es.map Event.patch) i).getD 0

/-- The configuration packets among the events. -/
def configs (es : List (Event params)) : List ConfigPacket := es.filterMap Event.config?

/-- The mapping in force after the events, from the sequence number and mapping before them. -/
def mappingAfter (q₀ : BitVec 32) (m₀ : Mapping) (es : List (Event params)) : Mapping :=
  inForce q₀ m₀ (configs es)

/-- The bytes of a string: `channel_count` addresses from `start_channel` on, with the last
value written to each. -/
def stringAfter (es : List (Event params)) (cell : Cell) : List Byte :=
  (List.range cell.channelCount.toInt.toNat).map fun i =>
    lastByte es (cell.startChannel.toInt.toNat + i)

/-- The state is what the history of events says. -/
structure Follows (c₀ : Controller) (es : List (Event params)) (c : Controller) : Prop where
  pixels : c.pixelBuffer.get = lastByte es
  config : c.configView = (configs es).foldl ConfigView.step c₀.configView
  pixelPorts : c.workers.pixelPorts = c₀.workers.pixelPorts

variable {c₀ c : Controller} {es : List (Event params)}

theorem Follows.nil (hzero : c₀.pixelBuffer = fun _ => 0) :
    Follows c₀ ([] : List (Event params)) c₀ where
  pixels := by
    funext i
    simp [hzero, Block.get, lastByte]
  config := rfl
  pixelPorts := rfl

/-- The recorded mapping is the one in force. -/
theorem Follows.mapping_eq (h : Follows c₀ es c) :
    c.workers.mapping = mappingAfter c₀.lastConfigSequence c₀.workers.mapping es :=
  (congrArg ConfigView.mapping h.config).trans (foldl_step_mapping _ _)

theorem lastByte_append (es : List (Event params)) (e : Event params) :
    lastByte (es ++ [e]) = e.patch.apply (lastByte es) := by
  funext i
  rw [lastByte, List.map_append, latest_append, Patch.apply, lastByte]
  change ((latest [e.patch] i).or _).getD 0 = _
  rw [latest_singleton]
  cases e.patch i <;> rfl

theorem configs_append (es : List (Event params)) (e : Event params) :
    configs (es ++ [e]) = configs es ++ e.config?.toList := by
  rw [configs, List.filterMap_append]
  cases h : e.config? <;> simp [configs, h]

/-- A state that differs from one that follows the history as the event says follows the longer
history. -/
theorem Follows.append (h : Follows c₀ es c) {c' : Controller} {e : Event params}
    (hpixels : c'.pixelBuffer.get = e.patch.apply c.pixelBuffer.get)
    (hconfig : c'.configView = e.config?.toList.foldl ConfigView.step c.configView)
    (hports : c'.workers.pixelPorts = c.workers.pixelPorts) : Follows c₀ (es ++ [e]) c' where
  pixels := by rw [hpixels, h.pixels, lastByte_append]
  config := by rw [hconfig, h.config, configs_append, List.foldl_append]
  pixelPorts := hports.trans h.pixelPorts

/-- One event, handled by the program, keeps the state equal to the history. -/
theorem follows_step
    (hrange : params.acn.universeEnd.toInt - params.acn.universeStart.toInt < 48)
    (h : Follows c₀ es c) (e : Event params)
    (hpack : ∀ rets, e = .refresh rets → Packable c₀.workers.pixelPorts
      (mappingAfter c₀.lastConfigSequence c₀.workers.mapping es)) :
    ∃ c', c.step params e.action = .ok c' ∧ Follows c₀ (es ++ [e]) c' := by
  cases e with
  | acn P =>
      obtain ⟨buffer, hstep, hbuffer⟩ := P.acnListen_eq hrange c
      exact ⟨_, hstep, h.append hbuffer rfl rfl⟩
  | data net P =>
      obtain ⟨buffer, hstep, hbuffer⟩ :=
        P.zcppMulticastListen_eq params.controllerName net c
      have hstep' := congrArg (Prod.fst <$> ·) hstep
      exact ⟨_, hstep'.trans (Outcome.map_ok ..), h.append hbuffer rfl rfl⟩
  | config net P hP =>
      obtain ⟨c', hstep, hview, hsame⟩ := zcppMulticastListen_config hP params net c
      exact ⟨c', hstep, h.append (by rw [hsame.pixelBuffer]; rfl) hview
        hsame.outside.pixelPorts⟩
  | refresh rets =>
      have hpack' : Packable c.workers.pixelPorts c.workers.mapping := by
        rw [h.pixelPorts, h.mapping_eq]
        exact hpack rets rfl
      obtain ⟨c', events, hstep, hsame, -⟩ := workerRefresh_of_packable hpack' rets
      refine ⟨c', ?_, h.append (by rw [hsame.pixelBuffer]; rfl) ?_ (by rw [hsame.workers])⟩
      · rw [Event.action, Controller.step, hstep, Outcome.map_ok]
      · change ConfigView.mk _ _ = ConfigView.mk _ _
        rw [hsame.workers, hsame.lastConfigSequence]

/-- Any sequence of events keeps the state equal to the history. -/
theorem exists_follows
    (hrange : params.acn.universeEnd.toInt - params.acn.universeStart.toInt < 48)
    (hzero : c₀.pixelBuffer = fun _ => 0)
    (hpack : ∀ pre rets post, es = pre ++ Event.refresh rets :: post →
      Packable c₀.workers.pixelPorts
        (mappingAfter c₀.lastConfigSequence c₀.workers.mapping pre)) :
    ∃ c, c₀.run params (es.map Event.action) = .ok c ∧ Follows c₀ es c := by
  rw [Controller.run, List.foldlM_map]
  refine Outcome.foldlM_total (Follows c₀) (Follows.nil hzero) ?_
  intro pre e post hsplit c hc
  exact follows_step hrange hc e fun rets he => hpack pre rets post (he ▸ hsplit)

/-- The slices the worker reads are the strings of the history. -/
theorem Follows.portStrings_eq (h : Follows c₀ es c) (p : Fin 4) :
    portStrings c.workers.mapping c.pixelBuffer p =
      (List.finRange 8).map fun s =>
        stringAfter es (mappingAfter c₀.lastConfigSequence c₀.workers.mapping es (p, s)) := by
  rw [portStrings, h.mapping_eq]
  simp only [Cell.bytes, Block.slice, stringAfter, h.pixels]

/-- From a cleared pixel buffer, any initial mapping and any payload buffers: in every sequence
of complete, in-range packets and refreshes in which the mapping in force at each refresh is
packable, all events are handled, and each refresh sends one frame to each port below
`pixel_ports`, in order, which a receiver decodes to the eight strings: for string `s`, the
bytes at the `channel_count` addresses from `start_channel` on, each the last value a packet
before the refresh wrote to it, zero if there is none. -/
theorem frames_eq_history (params : Params)
    (hrange : params.acn.universeEnd.toInt - params.acn.universeStart.toInt < 48)
    {c₀ : Controller} (hzero : c₀.pixelBuffer = fun _ => 0) (es : List (Event params))
    (hpack : ∀ pre rets post, es = pre ++ Event.refresh rets :: post →
      Packable c₀.workers.pixelPorts
        (mappingAfter c₀.lastConfigSequence c₀.workers.mapping pre)) :
    (∃ c, c₀.run params (es.map Event.action) = .ok c) ∧
    ∀ pre rets post, es = pre ++ Event.refresh rets :: post →
      ∃ c c' events, c₀.run params (pre.map Event.action) = .ok c ∧
        workerRefresh rets c = .ok (c', events) ∧
        (frames events).map (fun frame => (frame.1, Framing.decode 8 frame.2)) =
          ((List.finRange 4).filter fun p : Fin 4 =>
            (p : ℤ) < c₀.workers.pixelPorts.toInt).map fun p =>
              (p, some ((List.finRange 8).map fun s => stringAfter pre
                (mappingAfter c₀.lastConfigSequence c₀.workers.mapping pre (p, s)))) := by
  constructor
  · obtain ⟨c, hrun, -⟩ := exists_follows hrange hzero hpack
    exact ⟨c, hrun⟩
  · intro pre rets post hsplit
    -- the events before the refresh are such a sequence themselves
    have hpre : ∀ pre' rets' post', pre = pre' ++ Event.refresh rets' :: post' →
        Packable c₀.workers.pixelPorts
          (mappingAfter c₀.lastConfigSequence c₀.workers.mapping pre') := by
      intro pre' rets' post' hpre'
      exact hpack pre' rets' (post' ++ Event.refresh rets :: post) (by simp [hsplit, hpre'])
    obtain ⟨c, hrun, hc⟩ := exists_follows hrange hzero hpre
    have hpackable : Packable c.workers.pixelPorts c.workers.mapping := by
      rw [hc.pixelPorts, hc.mapping_eq]
      exact hpack pre rets post hsplit
    obtain ⟨c', events, hrefresh, -, hframes⟩ := workerRefresh_of_packable hpackable rets
    refine ⟨c, c', events, hrun, hrefresh, ?_⟩
    rw [hframes, refreshFrames, List.map_map, hc.pixelPorts]
    apply List.map_congr_left
    intro p hp
    have hlt : (p : ℤ) < c.workers.pixelPorts.toInt := by
      rw [hc.pixelPorts]
      simpa using hp
    simp only [Function.comp_apply, decode_portFrame (hpackable p hlt), hc.portStrings_eq]

end

/-- A data packet that writes `7, 8` at address 5. -/
def sampleData : DataPacket where
  datagram :=
    ⟨[0x5A, 0x43, 0x50, 0x50, 0x14, 0, 0, 0, 0, 0, 0, 5, 0, 2, 0, 7, 8], by decide⟩
  token := by decide
  type := by decide
  inRange := by decide
  complete := by decide

/-- `frames_eq_history` with one pixel port whose string 0 has the two channels from 5 on. -/
theorem frames_eq_history_sample :
    let w : Workers := Function.update (Workers.zero.setCell (0, 0) ⟨2, 5⟩) 0 1
    let c₀ : Controller := { (default : Controller) with workers := w }
    ∃ c c' events, c₀.run default [.zcpp default (some sampleData.datagram)] = .ok c ∧
      workerRefresh (fun _ => 0) c = .ok (c', events) ∧
      (frames events).map (fun frame => (frame.1, Framing.decode 8 frame.2)) =
        [(0, some [[7, 8], [], [], [], [], [], [], []])] := by
  intro w c₀
  have hrange : (default : Params).acn.universeEnd.toInt -
      (default : Params).acn.universeStart.toInt < 48 := by decide
  have hpack : ∀ p : Fin 4, (p : ℤ) < w.pixelPorts.toInt → PortPackable w.mapping p := by
    decide
  obtain ⟨-, hframes⟩ := @frames_eq_history default hrange c₀ rfl
    [.data default sampleData, .refresh fun _ => 0] (by
      intro pre rets post hsplit
      -- the refresh comes after the data packet, which configures nothing
      rcases pre with _ | ⟨e, _ | ⟨e', pre⟩⟩
      · cases hsplit
      · cases hsplit
        exact hpack
      · simp at hsplit)
  obtain ⟨c, c', events, hrun, hrefresh, heq⟩ :=
    hframes [.data default sampleData] (fun _ => 0) [] rfl
  refine ⟨c, c', events, hrun, hrefresh, heq.trans ?_⟩
  decide

end PiPixelController
