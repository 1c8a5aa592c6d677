import WorkerHost.Proofs.Channel.Pair

/-!
# Nothing closes an end

An end is closed by whoever holds it, never by what goes on between the two: as long as both ends
are there, every step keeps them. So a run never sees a link with one end.

* `WorkerSide.Deed.opened`: nothing that the worker thread does closes an end;
* `Pair.Run.opened`: both ends are there at every moment of a run;
* `Pair.Run.callAtOnce`: a call may enter and be sent in one go.
-/

namespace WorkerHost

namespace WorkerSide
variable {σ HH WH β : Type} {w w' : WorkerSide σ WH β}

/-- A deed closes no end, and the queue of an open end does not come to its end. -/
lemma Deed.opened (h : Deed w w') (hw : w.Open) : w'.Open := by
  cases h with
  | turn => exact ⟨hw.endpoint, hw.link⟩
  | issue => exact ⟨hw.endpoint, hw.link.tell _⟩
  | tell m => exact ⟨hw.endpoint, hw.link.tell m⟩
  | stack => exact ⟨hw.endpoint, hw.link⟩
  | settle => exact ⟨hw.endpoint, hw.link⟩
  | putAside => exact ⟨hw.endpoint, hw.link⟩
  | receive hreceive =>
    obtain ⟨-, hsending, hreceiving⟩ := Queue.eq_of_receive hreceive
    exact ⟨hw.endpoint, hsending.trans hw.link.toWorker_sending,
      hreceiving.trans hw.link.toWorker_receiving, hw.link.toHost_sending,
      hw.link.toHost_receiving⟩
  | hangUp hended =>
    have hgone := (Queue.receive_eq_ended.1 hended).2
    rw [hw.link.toWorker_sending] at hgone
    cases hgone

lemma Deeds.opened (h : Deeds w w') (hw : w.Open) : w'.Open :=
  h.keep Deed.opened hw

end WorkerSide

/-- A call of the host gets its entry and is sent, or it leaves everything as it was. -/
lemma HostEndpoint.startCall_open {H : Type} {e : HostEndpoint H} {link : Link} (hl : link.Open)
    (h : Heap) (target : Target) (xs : List Value) :
    (∃ args, packArgs h xs = .ok args ∧ e.startCall link h target xs =
        (.ok ⟨e.nextId⟩, e.enter, link.ask (.call ⟨e.nextId⟩ target args))) ∨
      ∃ err, e.startCall link h target xs = (.error err, e, link) := by
  unfold HostEndpoint.startCall
  cases packArgs h xs with
  | error err => exact .inr ⟨_, rfl⟩
  | ok args =>
    left
    simp only [Queue.send?_eq hl.joined.1]
    exact ⟨args, rfl, rfl⟩

namespace Pair
variable {σ HH WH β : Type} [HasHeap σ] {c c' : Pair σ HH WH β}

omit [HasHeap σ] in
lemma open_post (hc : c.worker.Open) (m : Message) : (c.post m).worker.Open := by
  rw [post_eq hc]
  exact ⟨hc.endpoint, hc.link.ask m⟩

lemma open_receive {event : HostEvent} (hc : c.worker.Open)
    (hreceive : c.receive? = some (event, c')) : c'.worker.Open := by
  unfold receive? Queue.receive at hreceive
  cases hqueue : c.worker.link.toHost.messages with
  | nil => simp [hqueue, hc.link.toHost_sending] at hreceive
  | cons m rest =>
    simp only [hqueue, Option.some.injEq, Prod.mk.injEq] at hreceive
    obtain ⟨-, rfl⟩ := hreceive
    exact ⟨hc.endpoint, hc.link.toWorker_sending, hc.link.toWorker_receiving,
      hc.link.toHost_sending, hc.link.toHost_receiving⟩

/-- Whatever happens closes no end. -/
lemma Step.opened {ps : WorkerPrograms σ WH} {evs : List (Event HH WH)} (step : Step ps c evs c')
    (hc : c.worker.Open) : c'.worker.Open := by
  cases step with
  | enter target hpack => exact hc
  | send houtgoing hsend =>
    rw [Queue.send?_eq hc.link.joined.1] at hsend
    cases hsend
    exact ⟨hc.endpoint, hc.link.ask _⟩
  | resolve hreceive => exact open_receive hc hreceive
  | take hreceive =>
    have hnext := open_receive hc hreceive
    exact hnext
  | accept htasks hrun => exact ⟨hc.endpoint, hc.link⟩
  | refuse htasks hrefused => exact hc
  | fail htasks => exact open_post (c := { c with tasks := _ }) hc _
  | ignore hreceive => exact open_receive hc hreceive
  | finish htasks result => exact open_post (c := { c with tasks := _ }) hc _
  | move hmove => exact (WorkerSide.deeds_move hmove).opened hc
  | start hrest task => exact (WorkerSide.deeds_start _ task).opened hc
  | serve hrest => exact ⟨hc.endpoint, hc.link⟩
  | manageHost hmanaged => exact hc
  | manageWorker hmanaged => exact ⟨hmanaged.unchanged.2.1.trans hc.endpoint, hc.link⟩
  | work s => exact ⟨hc.endpoint, hc.link⟩

/-- Both ends are there at every moment of a run. -/
lemma Run.opened {ps : WorkerPrograms σ WH} {name : String} {state : σ}
    {log : List (Event HH WH)} (run : Run ps name state c log) : c.worker.Open := by
  induction run with
  | new => exact ⟨rfl, rfl, rfl, rfl, rfl⟩
  | step before step ih => exact step.opened ih

/-- A call that is sent as soon as it has its entry. -/
lemma Run.callAtOnce {ps : WorkerPrograms σ WH} {name : String} {state : σ}
    {log : List (Event HH WH)} {xs : List Value} {args : Wire} (run : Run ps name state c log)
    (target : Target) (hpack : packArgs (HasHeap.heap c.worker.state) xs = .ok args) :
    Run ps name state
      { c with
        host := c.host.enter
        worker := { c.worker with
          link := c.worker.link.ask (.call ⟨c.host.nextId⟩ target args) } }
      (log ++ [.ofHost ⟨c.host.nextId⟩ (.issued target xs (HasHeap.heap c.worker.state))]) := by
  have hlink := run.opened.link
  have hentered := run.step (.enter target hpack)
  have hsent := hentered.step (.send rfl
    (Queue.send?_eq hlink.joined.1 _))
  rwa [List.append_nil, List.append_nil] at hsent

end Pair
end WorkerHost
