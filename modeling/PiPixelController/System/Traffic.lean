import PiPixelController.System.Delivery
import PiPixelController.System.Requests

/-!
# Other traffic

Both sockets receive more than the packets for the pixels: other protocols, universes for other
controllers, discovery packets and the packets whose handlers are empty. As long as the bytes of a
datagram tell what it is, it leaves no trace in any frame.

* `acnListen_of_refused`, `zcppMulticastListen_of_idle` — such a datagram changes the receive buffer
  only;
* `exists_follows_traffic` — the state follows the history without it;
* `frames_of_traffic` — so do the frames.
-/

namespace PiPixelController

open CSemantics

/-- The bytes of the datagram rule out the identifier or every universe of the range. -/
def Acn.Refused (params : AcnParam) (d : Datagram) : Prop :=
  IdentifierRefuted d ∨ UniverseRefuted params d

/-- The bytes of the datagram rule out the token, or give a type other than configuration and data;
a discovery packet is answered over `net`. -/
def Zcpp.Idle (net : Network) (d : Datagram) : Prop :=
  TokenRefuted d ∨ 5 ≤ d.bytes.length ∧ received d.eth ≠ some .config ∧
    received d.eth ≠ some .data ∧ (received d.eth = some .discovery → net.connectOk)

/-- What the process does next: an event, or the reception of another datagram. -/
inductive Arrival (params : Params) where
  | event (e : Event params)
  | acn (d : Datagram) (h : Acn.Refused params.acn d)
  | zcpp (net : Network) (d : Datagram) (h : Zcpp.Idle net d)

namespace Arrival

variable {params : Params}

/-- The iteration of the loop that handles the arrival. -/
def action : Arrival params → Action
  | event e => e.action
  | acn d _ => .acn (some d)
  | zcpp net d _ => .zcpp net (some d)

/-- The event, if it is one. -/
def event? : Arrival params → Option (Event params)
  | event e => some e
  | acn _ _ => none
  | zcpp _ _ _ => none

end Arrival

/-! ### One arrival -/

section

variable {controllerName : Block 48} {net : Network} {d : Datagram}

/-- A refused datagram changes the receive buffer only. -/
theorem acnListen_of_refused {params : AcnParam} (h : Acn.Refused params d) (c : Controller) :
    acnListen params (some d) c =
      .ok { c with acnEthBuffer := EthBuffer.recvfrom c.acnEthBuffer (some d) } := by
  have heth := d.carriedBy_recvfrom c.acnEthBuffer
  rw [Acn.acnListen_eq_effect, Acn.effect_of_not_accepted, Outcome.map_ok]
  exact h.imp (fun h => Acn.not_identifierMatches h heth) fun h => Acn.not_inUniverseRange h heth

/-- An idle datagram changes the receive buffer only, when a name can be sent. -/
theorem zcppMulticastListen_of_idle (h : Zcpp.Idle net d) (hname : controllerName.strlen.isSome)
    (c : Controller) :
    ∃ response, zcppMulticastListen controllerName net (some d) c =
      .ok ({ c with zcppEthBuffer := EthBuffer.recvfrom c.zcppEthBuffer (some d) }, response) := by
  have heth := d.carriedBy_recvfrom c.zcppEthBuffer
  rw [zcppMulticastListen, Zcpp.dispatch]
  rcases h with h | ⟨hlen, hconfig, hdata, hconnect⟩
  · rw [Zcpp.received_of_tokenRefuted h heth]
    exact ⟨none, rfl⟩
  · rw [Zcpp.received_of_length hlen heth]
    cases hkind : Zcpp.received d.eth with
    | none => exact ⟨none, rfl⟩
    | some kind =>
        cases kind with
        | config => exact absurd hkind hconfig
        | data => exact absurd hkind hdata
        | discovery =>
            -- the response is sent and forgotten
            obtain ⟨D, hD⟩ :=
              (@Zcpp.exists_discoveryResponse_iff controllerName net.localAddr).mpr hname
            refine ⟨some D, ?_⟩
            simp only [Zcpp.sendDiscoveryResponse, hconnect hkind, if_true, hD]
            rfl
        | extraData => exact ⟨none, rfl⟩
        | queryConfig => exact ⟨none, rfl⟩
        | sync => exact ⟨none, rfl⟩
        | other => exact ⟨none, rfl⟩

end

/-! ### Runs -/

section

variable {params : Params} {c₀ c : Controller} {arrivals : List (Arrival params)}

/-- The events among the arrivals. -/
def eventsOf (arrivals : List (Arrival params)) : List (Event params) :=
  arrivals.filterMap Arrival.event?

theorem eventsOf_append (arrivals : List (Arrival params)) (a : Arrival params) :
    eventsOf (arrivals ++ [a]) = eventsOf arrivals ++ a.event?.toList := by
  rw [eventsOf, List.filterMap_append]
  cases h : a.event? <;> simp [eventsOf, h]

/-- What is no event leaves the state where the history says it is. -/
theorem follows_arrival
    (hrange : params.acn.universeEnd.toInt - params.acn.universeStart.toInt < 48)
    (hname : params.controllerName.strlen.isSome)
    (h : Follows c₀ (eventsOf arrivals) c) (a : Arrival params)
    (hpack : ∀ rets, a.event? = some (.refresh rets) →
      Packable c₀.workers.pixelPorts (c₀.mappingAfter (eventsOf arrivals))) :
    ∃ c', c.step params a.action = .ok c' ∧ Follows c₀ (eventsOf (arrivals ++ [a])) c' := by
  rw [eventsOf_append]
  cases a with
  | event e => exact follows_step hrange h e fun rets he => hpack rets (congrArg some he)
  -- the history leaves the receive buffers open
  | acn d hd =>
      refine ⟨_, acnListen_of_refused hd c, ?_⟩
      rw [Arrival.event?, Option.toList_none, List.append_nil]
      exact ⟨h.pixels, h.config, h.pixelPorts⟩
  | zcpp net d hd =>
      obtain ⟨response, hlisten⟩ := zcppMulticastListen_of_idle hd hname c
      have hstep := congrArg (Prod.fst <$> ·) hlisten
      refine ⟨_, hstep.trans (Outcome.map_ok ..), ?_⟩
      rw [Arrival.event?, Option.toList_none, List.append_nil]
      exact ⟨h.pixels, h.config, h.pixelPorts⟩

/-- The state after any arrivals follows the events among them. -/
theorem exists_follows_traffic
    (hrange : params.acn.universeEnd.toInt - params.acn.universeStart.toInt < 48)
    (hname : params.controllerName.strlen.isSome) (hzero : c₀.pixelBuffer = fun _ => 0)
    (hpack : RefreshesPackable c₀ (eventsOf arrivals)) :
    ∃ c, c₀.run params (arrivals.map Arrival.action) = .ok c ∧
      Follows c₀ (eventsOf arrivals) c := by
  rw [Controller.run, List.foldlM_map]
  refine Outcome.foldlM_total (fun pre => Follows c₀ (eventsOf pre)) (Follows.nil hzero) ?_
  intro pre a post hsplit c hc
  refine follows_arrival hrange hname hc a fun rets ha => ?_
  refine hpack (eventsOf pre) rets (eventsOf post) ?_
  rw [hsplit, eventsOf, List.filterMap_append, List.filterMap_cons, ha]
  rfl

/-- So does the state after a run that completed, whose refreshes were packable. -/
theorem follows_of_run
    (hrange : params.acn.universeEnd.toInt - params.acn.universeStart.toInt < 48)
    (hname : params.controllerName.strlen.isSome) (hzero : c₀.pixelBuffer = fun _ => 0)
    (hrun : c₀.run params (arrivals.map Arrival.action) = .ok c) :
    Follows c₀ (eventsOf arrivals) c := by
  rw [Controller.run, List.foldlM_map] at hrun
  refine Outcome.foldlM_partial (fun pre c => Follows c₀ (eventsOf pre) c) (Follows.nil hzero) ?_
    hrun
  rintro pre a post - s s' hs hstep
  have hpack : ∀ rets, a.event? = some (.refresh rets) →
      Packable c₀.workers.pixelPorts (c₀.mappingAfter (eventsOf pre)) := by
    intro rets ha
    obtain rfl : a = .event (.refresh rets) := by
      cases a with
      | event e => exact congrArg Arrival.event (Option.some.inj ha)
      | _ => cases ha
    -- the refresh completed, so what it found was packable
    obtain ⟨r, hr, -⟩ := Outcome.map_eq_ok_iff.mp hstep
    have hpackable := packable_of_workerRefresh hr
    rwa [hs.pixelPorts, hs.mapping_eq] at hpackable
  obtain ⟨s'', hstep', hfollows⟩ := follows_arrival hrange hname hs a hpack
  obtain rfl := Outcome.ok.inj (hstep.symm.trans hstep')
  exact hfollows

/-- For every sequence of complete, in-range packets, refreshes, discovery packets that are
answered, and other datagrams whose bytes show that they are not for a handler, in any order: if
the name has a NUL in `zcppParam` and every refresh is packable, each refresh sends the frames it
would send had only the packets for the handlers arrived. -/
theorem frames_of_traffic (params : Params)
    (hrange : params.acn.universeEnd.toInt - params.acn.universeStart.toInt < 48)
    (hname : params.controllerName.strlen.isSome) (hzero : c₀.pixelBuffer = fun _ => 0)
    (arrivals : List (Arrival params)) (rets : Fin 4 → ℤ)
    (hpack : RefreshesPackable c₀ (eventsOf arrivals ++ [.refresh rets])) :
    ∃ c d events c' d' events', c₀.run params (arrivals.map Arrival.action) = .ok c ∧
      workerRefresh rets c = .ok (d, events) ∧
      c₀.run params ((eventsOf arrivals).map Event.action) = .ok c' ∧
      workerRefresh rets c' = .ok (d', events') ∧ frames events = frames events' := by
  obtain ⟨c, hrun, hfollows⟩ := exists_follows_traffic hrange hname hzero hpack.prefix
  obtain ⟨c', d', events', hrun', hfollows', -, hrefresh', hframes'⟩ :=
    exists_refresh hrange hzero hpack
  have hpackable : Packable c.workers.pixelPorts c.workers.mapping := by
    rw [hfollows.pixelPorts, hfollows.mapping_eq]
    exact hpack (eventsOf arrivals) rets [] rfl
  obtain ⟨d, events, hrefresh, -, hframes⟩ := workerRefresh_of_packable hpackable rets
  refine ⟨c, d, events, c', d', events', hrun, hrefresh, hrun', hrefresh', ?_⟩
  rw [hframes, hframes']
  refine refreshFrames_congr ?_ ?_ ?_
  · rw [hfollows.pixels, hfollows'.pixels]
  · rw [hfollows.mapping_eq, hfollows'.mapping_eq]
  · rw [hfollows.pixelPorts, hfollows'.pixelPorts]

end

/-- A datagram of another protocol. -/
def foreignDatagram : Datagram := ⟨List.replicate 14 0, by decide⟩

theorem refused_foreignDatagram (params : AcnParam) : Acn.Refused params foreignDatagram :=
  Or.inl ⟨0, by decide, by decide, by decide⟩

theorem idle_foreignDatagram (net : Network) : Zcpp.Idle net foreignDatagram :=
  Or.inl ⟨0, by decide, by decide, by decide⟩

/-- A synchronisation packet. -/
def syncDatagram : Datagram := ⟨Zcpp.token ++ [0x15], by decide⟩

theorem idle_syncDatagram (net : Network) : Zcpp.Idle net syncDatagram := by
  have hsync : Zcpp.received syncDatagram.eth = some .sync := by decide
  refine Or.inr ⟨by decide, ?_, ?_, ?_⟩ <;> simp [hsync]

/-- `frames_of_traffic` for a data packet among datagrams that are not for a handler. -/
theorem frames_of_traffic_sample :
    let w : Workers := Function.update (Workers.zero.setCell (0, 0) ⟨2, 5⟩) 0 1
    let c₀ : Controller := { (default : Controller) with workers := w }
    let data : Action := .zcpp default (some sampleData.datagram)
    ∃ c d events c' d' events',
      c₀.run default [.acn (some foreignDatagram), data, .zcpp default (some foreignDatagram),
        .zcpp default (some syncDatagram)] = .ok c ∧
      workerRefresh (fun _ => 0) c = .ok (d, events) ∧ c₀.run default [data] = .ok c' ∧
      workerRefresh (fun _ => 0) c' = .ok (d', events') ∧ frames events = frames events' := by
  intro w c₀ data
  have hpack : ∀ p : Fin 4, (p : ℤ) < w.pixelPorts.toInt → PortPackable w.mapping p := by decide
  let arrivals : List (Arrival default) :=
    [.acn foreignDatagram (refused_foreignDatagram _), .event (.data default sampleData),
      .zcpp default foreignDatagram (idle_foreignDatagram _),
      .zcpp default syncDatagram (idle_syncDatagram _)]
  have hevents : eventsOf arrivals = [.data default sampleData] := rfl
  have hrefresh : RefreshesPackable c₀ (eventsOf arrivals ++ [.refresh fun _ => 0]) :=
    refreshesPackable_of_config_none (by simp [hevents, Event.config?]) hpack
  exact frames_of_traffic default (by decide) (by decide) rfl arrivals (fun _ => 0) hrefresh

end PiPixelController
