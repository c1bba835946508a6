import Bcmdhd.FlowRing.LifeCycle
import Bcmdhd.Msgbuf.H2DRing

/-!
# Delete and flush requests of flow rings (`dhd_pcie.c`, `dhd_msgbuf.c`)

A delete or flush request marks the flow ring as pending and posts an item to the control
ring, which all flow rings and the other control messages share.  The ring leaves the pending
status by a response.

    the request of an open ring leaves it open with an error, or with a request outstanding
      ↔  the control ring has space ∨ an earlier request is outstanding,
    and in runs of such requests, whose last responses report success:
      a pending ring has a request outstanding                      (pending_is_answered)
-/

namespace Bcmdhd.Pending

open Runs H2DRing FlowRing

variable {α : Type}

def BCME_OK : Int := 0

def BCME_ERROR : Int := -1

def BCME_NOMEM : Int := -27

/-! ## Algorithm -/

/-- The control ring and the flow rings, by flowid. -/
structure Dhd (α : Type) where
  h2dringCtrlSubn : MsgbufRing
  flows : Nat → FlowRing.Bus α

def setFlow (dhd : Dhd α) (flowid : Nat) (flow : FlowRing.Bus α) : Dhd α :=
  { dhd with flows := Function.update dhd.flows flowid flow }

/-- Space for one item of the control ring; `fresh` is the read index that the host gets if it
has to refresh its copy. -/
def allocCtrlSpace (nib : Bool) (dhd : Dhd α) (fresh : Nat) : Dhd α × Bool :=
  let (ring, space) := allocRingSpace nib dhd.h2dringCtrlSubn 1 false fresh
  ({ dhd with h2dringCtrlSubn := ring }, space.isSome)

/-- `dhd_prot_flow_ring_delete` and `dhd_prot_flow_ring_flush`, which differ in the item. -/
def protPost (nib : Bool) (request : Request) (dhd : Dhd α) (flowid fresh : Nat) : Dhd α × Int :=
  let (dhd, space) := allocCtrlSpace nib dhd fresh
  if space then (setFlow dhd flowid (post (dhd.flows flowid) request true), BCME_OK)
  else (dhd, BCME_NOMEM)

def protFlowRingDelete (nib : Bool) (dhd : Dhd α) (flowid fresh : Nat) : Dhd α × Int :=
  protPost nib .delete dhd flowid fresh

def protFlowRingFlush (nib : Bool) (dhd : Dhd α) (flowid fresh : Nat) : Dhd α × Int :=
  protPost nib .flush dhd flowid fresh

/-- The node gets the status and its queue is flushed. -/
def markFlushed (dhd : Dhd α) (flowid : Nat) (status : Status) : Dhd α :=
  let flow := dhd.flows flowid
  setFlow dhd flowid { flow with node := { flow.node with status, queue := [] } }

/-- `dhd_bus_flow_ring_delete_request` -/
def busFlowRingDeleteRequest (nib : Bool) (dhd : Dhd α) (flowid fresh : Nat) : Dhd α × Int :=
  if (dhd.flows flowid).node.status = .deletePending then (dhd, BCME_ERROR)
  else
    let dhd := markFlushed dhd flowid .deletePending
    -- Send Msg to device about flow ring deletion
    ((protFlowRingDelete nib dhd flowid fresh).1, BCME_OK)

/-- `dhd_bus_flow_ring_flush_request` -/
def busFlowRingFlushRequest (nib : Bool) (dhd : Dhd α) (flowid fresh : Nat) : Dhd α × Int :=
  let dhd := markFlushed dhd flowid .flushPending
  -- Send Msg to device about flow ring flush
  ((protFlowRingFlush nib dhd flowid fresh).1, BCME_OK)

/-- `dhd_flowid_lookup`, which creates the flow unless it finds it. -/
def flowidLookup (nib : Bool) (dhd : Dhd α) (flowid fresh : Nat) : Dhd α :=
  if (dhd.flows flowid).hashed then dhd
  else
    let (dhd, posted) := allocCtrlSpace nib dhd fresh
    setFlow dhd flowid (FlowRing.flowidLookup (dhd.flows flowid) posted).1

/-- The handler of a response; `ok`: the dongle reports success. -/
def response (flow : FlowRing.Bus α) (ok : Bool) (room : Nat) : Request → FlowRing.Bus α
  | .create => (flowRingCreateResponse flow ok room).1
  | .delete => (flowRingDeleteResponse flow ok).1
  | .flush => flowRingFlushResponse flow ok

/-- The dongle answers the `i`-th request outstanding of a flow ring. -/
def respond (dhd : Dhd α) (flowid i : Nat) (ok : Bool) (room : Nat) : Option (Dhd α) :=
  let flow := dhd.flows flowid
  flow.outstanding[i]?.map fun request =>
    setFlow dhd flowid
      (response { flow with outstanding := flow.outstanding.eraseIdx i } ok room request)

inductive Call (α : Type)
  | lookup (flowid fresh : Nat)
  | deleteRequest (flowid fresh : Nat)
  | flushRequest (flowid fresh : Nat)
  | respond (flowid i : Nat) (ok : Bool) (room : Nat)
  /-- a part of `dhd_bus_txdata`, or `dhd_bus_schedule_queue` -/
  | tx (flowid : Nat) (c : TxCall α)
  /-- the station is freed -/
  | staFreeing (flowid : Nat)
  /-- another message on the control ring -/
  | submit (nitems : Nat) (exactlyNitems : Bool) (fresh : Nat)
deriving DecidableEq, Repr

/-- The result is what a request returns. -/
def step (nib : Bool) (dhd : Dhd α) : Call α → Option (Dhd α × Int)
  | .lookup flowid fresh => some (flowidLookup nib dhd flowid fresh, BCME_OK)
  | .deleteRequest flowid fresh => some (busFlowRingDeleteRequest nib dhd flowid fresh)
  | .flushRequest flowid fresh => some (busFlowRingFlushRequest nib dhd flowid fresh)
  | .respond flowid i ok room => (respond dhd flowid i ok room).map fun dhd => (dhd, BCME_OK)
  | .tx flowid c =>
    (txStep (dhd.flows flowid) c).map fun r => (setFlow dhd flowid r.1, BCME_OK)
  | .staFreeing flowid => some (markFlushed dhd flowid .staFreeing, BCME_OK)
  | .submit nitems exactlyNitems fresh =>
    some ({ dhd with
      h2dringCtrlSubn :=
        (allocRingSpace nib dhd.h2dringCtrlSubn nitems exactlyNitems fresh).1 }, BCME_OK)

/-- A control ring of `maxItems` items; no flow ring was created. -/
def init (α : Type) (maxItems : Nat) : Dhd α :=
  ⟨⟨maxItems, false, 0, 0, 0⟩, fun _ => FlowRing.init⟩

/-! ## Pending rings -/

def pending : Status → Bool
  | .deletePending => true
  | .flushPending => true
  | _ => false

/-- A request is outstanding whose response moves the ring out of a pending status. -/
def Awaits (flow : FlowRing.Bus α) : Prop :=
  ∃ request ∈ flow.outstanding, ∀ room, pending (response flow true room request).node.status = false

/-- What a request returned is an error, and the ring is still open, or it awaits a response. -/
def Handled (flowid : Nat) (r : Dhd α × Int) : Prop :=
  r.2 ≠ BCME_OK ∧ (r.1.flows flowid).node.status = .opened ∨ Awaits (r.1.flows flowid)

/-- Every pending ring awaits a response. -/
def NoneStranded (dhd : Dhd α) : Prop :=
  ∀ flowid, pending (dhd.flows flowid).node.status = true → Awaits (dhd.flows flowid)

/-- A request finds space, or an earlier one is outstanding; the failure of a delete or a flush
is not the last response a pending ring waits for. -/
def answered (dhd : Dhd α) : Call α → Bool
  | .deleteRequest flowid fresh | .flushRequest flowid fresh =>
    hasSpace dhd.h2dringCtrlSubn fresh || !(dhd.flows flowid).outstanding.isEmpty
  | .respond flowid i ok _ =>
    ok || (dhd.flows flowid).outstanding[i]? == some .create ||
      decide (1 < (dhd.flows flowid).outstanding.length) ||
      !pending (dhd.flows flowid).node.status
  | _ => true

/-! ## Responses -/

theorem scheduleQueue_status (s : FlowRing.Bus α) (room : Nat) :
    (scheduleQueue s room).1.node.status = s.node.status ∧
      (scheduleQueue s room).1.outstanding = s.outstanding := by
  obtain ⟨queue, pkts, heq, -⟩ := scheduleQueue_cases s room
  rw [heq]
  exact ⟨rfl, rfl⟩

/-- Every success moves the ring out of a pending status. -/
theorem response_clears (flow : FlowRing.Bus α) (room : Nat) (request : Request) :
    pending (response flow true room request).node.status = false := by
  cases request with
  | create =>
    show pending (scheduleQueue _ room).1.node.status = false
    rw [(scheduleQueue_status _ room).1]
    rfl
  | delete => rfl
  | flush => rfl

theorem awaits_iff (flow : FlowRing.Bus α) : Awaits flow ↔ flow.outstanding ≠ [] := by
  constructor
  · rintro ⟨request, hm, -⟩ hnil
    rw [hnil] at hm
    cases hm
  · intro hne
    obtain ⟨request, hm⟩ := List.exists_mem_of_ne_nil _ hne
    exact ⟨request, hm, fun room => response_clears flow room request⟩

/-! ## Requests -/

variable {nib : Bool} {dhd : Dhd α}

/-- The flow ring after a request of it: marked, and with the request if there was space. -/
def requested (dhd : Dhd α) (flowid fresh : Nat) (status : Status) (request : Request) :
    FlowRing.Bus α :=
  let flow := dhd.flows flowid
  { flow with
    node := { flow.node with status, queue := [] }
    outstanding :=
      flow.outstanding ++ if hasSpace dhd.h2dringCtrlSubn fresh then [request] else [] }

theorem protPost_flows (hwr : WrInside dhd.h2dringCtrlSubn) (nib : Bool) (flowid fresh : Nat)
    (status : Status) (request : Request) :
    (protPost nib request (markFlushed dhd flowid status) flowid fresh).1.flows =
      Function.update dhd.flows flowid (requested dhd flowid fresh status request) := by
  have hsome := allocRingSpace_isSome hwr nib fresh
  unfold protPost allocCtrlSpace requested
  cases hs : hasSpace dhd.h2dringCtrlSubn fresh with
  | true =>
    rw [hs] at hsome
    simp only [markFlushed, setFlow, hsome, if_true, Function.update_idem, Function.update_self]
    rfl
  | false =>
    rw [hs] at hsome
    simp only [markFlushed, setFlow, hsome, Bool.false_eq_true, if_false, List.append_nil]

theorem requested_outstanding (dhd : Dhd α) (flowid fresh : Nat) (status : Status)
    (request : Request) :
    (requested dhd flowid fresh status request).outstanding ≠ [] ↔
      hasSpace dhd.h2dringCtrlSubn fresh = true ∨ (dhd.flows flowid).outstanding ≠ [] := by
  unfold requested
  cases hasSpace dhd.h2dringCtrlSubn fresh <;> simp

/-- A request of an open ring is handled just when there is space, or an earlier request is
outstanding. -/
theorem handled_iff (hwr : WrInside dhd.h2dringCtrlSubn) {flowid fresh : Nat} {status : Status}
    {request : Request} {r : Dhd α × Int}
    (hr : r = ((protPost nib request (markFlushed dhd flowid status) flowid fresh).1, BCME_OK)) :
    Handled flowid r ↔
      hasSpace dhd.h2dringCtrlSubn fresh = true ∨ (dhd.flows flowid).outstanding ≠ [] := by
  rw [← requested_outstanding dhd flowid fresh status request]
  unfold Handled
  rw [hr, awaits_iff, protPost_flows hwr, Function.update_self]
  constructor
  · rintro (⟨hne, -⟩ | h)
    · exact absurd rfl hne
    · exact h
  · exact .inr

/-! ## Every step -/

/-- A step changes one flow ring at most. -/
theorem noneStranded_update {dhd' : Dhd α} (h : NoneStranded dhd) {flowid : Nat}
    {flow : FlowRing.Bus α} (hf : dhd'.flows = Function.update dhd.flows flowid flow) :
    NoneStranded dhd' ↔ (pending flow.node.status = true → flow.outstanding ≠ []) := by
  unfold NoneStranded
  rw [hf]
  constructor
  · intro hall hp
    have hflow := hall flowid
    rw [Function.update_self] at hflow
    exact (awaits_iff flow).mp (hflow hp)
  · intro hflow f hp
    by_cases hfl : f = flowid
    · subst hfl
      rw [Function.update_self] at hp ⊢
      exact (awaits_iff flow).mpr (hflow hp)
    · rw [Function.update_of_ne hfl] at hp ⊢
      exact h f hp

theorem NoneStranded.outstanding (h : NoneStranded dhd) (flowid : Nat)
    (hp : pending (dhd.flows flowid).node.status = true) : (dhd.flows flowid).outstanding ≠ [] :=
  (awaits_iff _).mp (h flowid hp)

theorem request_iff (h : NoneStranded dhd) (hwr : WrInside dhd.h2dringCtrlSubn)
    {flowid fresh : Nat} {status : Status} {request : Request} (hpend : pending status = true) :
    NoneStranded (protPost nib request (markFlushed dhd flowid status) flowid fresh).1 ↔
      (hasSpace dhd.h2dringCtrlSubn fresh || !(dhd.flows flowid).outstanding.isEmpty) = true := by
  rw [noneStranded_update h (protPost_flows hwr nib flowid fresh status request),
    requested_outstanding]
  show (pending status = true → _) ↔ _
  simp [hpend]

theorem respond_iff (h : NoneStranded dhd) {dhd' : Dhd α} {flowid i : Nat} {ok : Bool}
    {room : Nat} (hr : respond dhd flowid i ok room = some dhd') :
    NoneStranded dhd' ↔ answered dhd (.respond flowid i ok room) = true := by
  unfold respond at hr
  rw [Option.map_eq_some_iff] at hr
  obtain ⟨request, hi, rfl⟩ := hr
  rw [noneStranded_update h rfl]
  simp only [answered, hi]
  have hlen := (List.getElem?_eq_some_iff.mp hi).1
  cases ok with
  | true => simp [response_clears]
  | false =>
    -- a failed delete or flush changes nothing but what is outstanding
    have hkept : (dhd.flows flowid).outstanding.eraseIdx i ≠ [] ↔
        1 < (dhd.flows flowid).outstanding.length := by
      rw [← List.length_pos_iff, List.length_eraseIdx_of_lt hlen]
      omega
    cases request with
    | create => simp [response, flowRingCreateResponse, cleanFlowRing, pending]
    | delete =>
      show (pending (dhd.flows flowid).node.status = true → _) ↔ _
      rw [show (response _ false room Request.delete : FlowRing.Bus α).outstanding =
        (dhd.flows flowid).outstanding.eraseIdx i from rfl, hkept]
      cases pending (dhd.flows flowid).node.status <;> simp
    | flush =>
      show (pending (dhd.flows flowid).node.status = true → _) ↔ _
      rw [show (response _ false room Request.flush : FlowRing.Bus α).outstanding =
        (dhd.flows flowid).outstanding.eraseIdx i from rfl, hkept]
      cases pending (dhd.flows flowid).node.status <;> simp

/-- A flow ring that keeps its status and what it waits for. -/
theorem noneStranded_kept (h : NoneStranded dhd) {dhd' : Dhd α} {flowid : Nat}
    {flow : FlowRing.Bus α} (hf : dhd'.flows = Function.update dhd.flows flowid flow)
    (hst : flow.node.status = (dhd.flows flowid).node.status)
    (hout : flow.outstanding = (dhd.flows flowid).outstanding) : NoneStranded dhd' := by
  rw [noneStranded_update h hf, hst, hout]
  exact h.outstanding flowid

/-- The flow of a lookup is found, or its node is new. -/
theorem flowidLookup_kept (h : NoneStranded dhd) (flowid fresh : Nat) :
    NoneStranded (flowidLookup nib dhd flowid fresh) := by
  unfold flowidLookup
  split
  · exact h
  · next hno =>
    have hnot : ∀ posted, ¬ pending
        (FlowRing.flowidLookup (dhd.flows flowid) posted).1.node.status = true := by
      intro posted
      rcases flowidLookup_cases (dhd.flows flowid) posted with
        ⟨hyes, -⟩ | ⟨-, flow, hr, -, -, ⟨hst, -⟩ | ⟨hst, -⟩⟩
      · exact absurd hyes hno
      · rw [hr, hst]
        nofun
      · rw [hr, hst]
        nofun
    exact (noneStranded_update h rfl).mpr fun hp => absurd hp (hnot _)

/-- **Every step** leaves no ring stranded just when it is answered. -/
theorem step_iff (h : NoneStranded dhd) (hwr : WrInside dhd.h2dringCtrlSubn) {c : Call α}
    {dhd' : Dhd α} {r : Int} (hs : step nib dhd c = some (dhd', r)) :
    NoneStranded dhd' ↔ answered dhd c = true := by
  cases c with
  | lookup flowid fresh =>
    cases hs
    exact iff_of_true (flowidLookup_kept h flowid fresh) rfl
  | deleteRequest flowid fresh =>
    have hs := Option.some.inj hs
    unfold busFlowRingDeleteRequest at hs
    split at hs
    · next hdel =>
      cases hs
      refine iff_of_true h ?_
      have hout := h.outstanding flowid (by rw [hdel]; rfl)
      simp [answered, hout]
    · cases hs
      exact request_iff h hwr rfl
  | flushRequest flowid fresh =>
    cases hs
    exact request_iff h hwr rfl
  | respond flowid i ok room =>
    obtain ⟨dhd'', hr, heq⟩ := Option.map_eq_some_iff.mp hs
    cases heq
    exact respond_iff h hr
  | tx flowid c =>
    obtain ⟨⟨flow, effs⟩, hr, heq⟩ := Option.map_eq_some_iff.mp hs
    cases heq
    obtain ⟨queue, callers, hflow, -⟩ := txStep_cases hr
    exact iff_of_true (noneStranded_kept h rfl (by rw [hflow]; rfl) (by rw [hflow]; rfl)) rfl
  | staFreeing flowid =>
    cases hs
    exact iff_of_true ((noneStranded_update h rfl).mpr nofun) rfl
  | submit nitems exactlyNitems fresh =>
    cases hs
    exact iff_of_true h rfl

theorem step_inside (hwr : WrInside dhd.h2dringCtrlSubn) {c : Call α} {dhd' : Dhd α} {r : Int}
    (hs : step nib dhd c = some (dhd', r)) : WrInside dhd'.h2dringCtrlSubn := by
  have hctrl : ∀ dhd₀ : Dhd α, dhd₀.h2dringCtrlSubn = dhd.h2dringCtrlSubn → ∀ fresh,
      WrInside (allocCtrlSpace nib dhd₀ fresh).1.h2dringCtrlSubn := by
    intro dhd₀ heq fresh
    refine allocRingSpace_inside ?_ nib 1 false fresh
    rw [heq]
    exact hwr
  have hpost : ∀ dhd₀ : Dhd α, dhd₀.h2dringCtrlSubn = dhd.h2dringCtrlSubn →
      ∀ request flowid fresh,
        WrInside (protPost nib request dhd₀ flowid fresh).1.h2dringCtrlSubn := by
    intro dhd₀ heq request flowid fresh
    have := hctrl dhd₀ heq fresh
    unfold protPost
    dsimp only
    split
    · exact this
    · exact this
  cases c with
  | lookup flowid fresh =>
    cases hs
    unfold flowidLookup
    split
    · exact hwr
    · exact hctrl dhd rfl fresh
  | deleteRequest flowid fresh =>
    have hs := Option.some.inj hs
    unfold busFlowRingDeleteRequest at hs
    split at hs
    · cases hs
      exact hwr
    · cases hs
      exact hpost (markFlushed dhd flowid .deletePending) rfl .delete flowid fresh
  | flushRequest flowid fresh =>
    cases hs
    exact hpost (markFlushed dhd flowid .flushPending) rfl .flush flowid fresh
  | respond flowid i ok room =>
    obtain ⟨dhd'', hr, heq⟩ := Option.map_eq_some_iff.mp hs
    cases heq
    obtain ⟨request, -, rfl⟩ := Option.map_eq_some_iff.mp hr
    exact hwr
  | tx flowid c =>
    obtain ⟨r, -, heq⟩ := Option.map_eq_some_iff.mp hs
    cases heq
    exact hwr
  | staFreeing flowid =>
    cases hs
    exact hwr
  | submit nitems exactlyNitems fresh =>
    cases hs
    exact allocRingSpace_inside hwr nib nitems exactlyNitems fresh

theorem runs_answered {maxItems : Nat} (hpos : 0 < maxItems) (es : List (Call α)) (dhd : Dhd α)
    (tr : List (Call α × Int)) (hm : meets (step nib) answered (init α maxItems) es = true)
    (h : runs (step nib) (init α maxItems) es = some (dhd, tr)) :
    NoneStranded dhd ∧ WrInside dhd.h2dringCtrlSubn := by
  refine runs_inv_of_meets (step nib) answered
    (fun dhd _ => NoneStranded dhd ∧ WrInside dhd.h2dringCtrlSubn) ?_ _ _ es tr ?_ hm h
  · rintro s tr c s' r ⟨hn, hwr⟩ hc hs
    exact ⟨(step_iff hn hwr hs).mpr hc, step_inside hwr hs⟩
  · exact ⟨nofun, hpos⟩

/-! ## Top theorem -/

/-- **A pending ring is answered**: the delete or flush request of an open ring is handled just
when the control ring has space or an earlier request is outstanding; and when this holds of
every request of a run, and no pending ring's last response is a failure, every pending ring
has a request outstanding whose response moves it on. -/
theorem pending_is_answered (nib : Bool) :
    (∀ (dhd : Dhd α) flowid fresh, WrInside dhd.h2dringCtrlSubn →
      (dhd.flows flowid).node.status = .opened →
      (Handled flowid (busFlowRingDeleteRequest nib dhd flowid fresh) ↔
        hasSpace dhd.h2dringCtrlSubn fresh = true ∨ (dhd.flows flowid).outstanding ≠ []) ∧
      (Handled flowid (busFlowRingFlushRequest nib dhd flowid fresh) ↔
        hasSpace dhd.h2dringCtrlSubn fresh = true ∨ (dhd.flows flowid).outstanding ≠ [])) ∧
    ∀ maxItems (es : List (Call α)) dhd tr, 0 < maxItems →
      meets (step nib) answered (init α maxItems) es = true →
      runs (step nib) (init α maxItems) es = some (dhd, tr) → NoneStranded dhd := by
  refine ⟨fun dhd flowid fresh hwr hopen => ⟨?_, ?_⟩, fun maxItems es dhd tr hpos hm h => ?_⟩
  · apply handled_iff hwr
    unfold busFlowRingDeleteRequest
    rw [hopen, if_neg nofun]
    rfl
  · exact handled_iff hwr rfl
  · exact (runs_answered hpos es dhd tr hm h).1

/-- Flow ring 2 is created, then deleted; the control ring has two items. -/
def createDelete : List (Call Nat) :=
  [.lookup 2 0, .respond 2 0 true 0, .deleteRequest 2 1]

theorem pending_is_answered_deleted :
    ∃ dhd tr, runs (step false) (init Nat 2) createDelete = some (dhd, tr) ∧
      (dhd.flows 2).node.status = .deletePending ∧ NoneStranded dhd := by
  refine ⟨_, _, rfl, rfl, ?_⟩
  exact (@pending_is_answered Nat false).2 2 createDelete _ _ (by decide) (by decide) rfl

/-- The same, with an ioctl that fills the control ring before the delete. -/
def deleteWhenFull : List (Call Nat) :=
  [.lookup 2 0, .respond 2 0 true 0, .submit 1 false 1, .deleteRequest 2 1]

/-- The delete returns `BCME_OK`, and leaves a pending ring that waits for nothing. -/
theorem pending_fails :
    ∃ dhd tr, runs (step false) (init Nat 2) deleteWhenFull = some (dhd, tr) ∧
      tr.map Prod.snd = [BCME_OK, BCME_OK, BCME_OK, BCME_OK] ∧
      (dhd.flows 2).node.status = .deletePending ∧ ¬ NoneStranded dhd := by
  refine ⟨_, _, rfl, rfl, rfl, fun h => ?_⟩
  exact h.outstanding 2 rfl rfl

end Bcmdhd.Pending
