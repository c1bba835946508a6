import Bcmdhd.Lib.Runs
import Mathlib.Data.BitVec
import Mathlib.Data.List.Nodup

/-!
# The log of packet fates (`dhd_dbg_monitor_tx_pkts`, `dhd_dbg_monitor_tx_status`)

Up to 32 frames are logged, and a status is matched with one of them by a hash.  The count of
statuses is where the search begins, how many entries are reported, and what the number of frames is
compared with to see whether the log is full.

    every status is attributed, and the reported entries are the ones with a final fate  ↔
      statuses come in the order of the frames, or are about no frame while one waits, and
      management frames come while none waits                                  (fate_log_iff)

The frames themselves, and the times, are left out.
-/

namespace Bcmdhd.DbgRing.PktMon

open Runs

/-! ## Data -/

def MAX_FATE_LOG_LEN : Nat := 32
def BCME_OK : Int := 0
def EINVAL : Int := 22

/-- `wifi_tx_packet_fate` -/
inductive Fate
  | acked | sent | fwQueued | fwDropInvalid | fwDropExptime | fwDropOther
  | drvQueued | drvDropInvalid | drvDropNobufs | drvDropOther
  | fwPktFree | fwMaxSupRetr | fwForcedExpired
  deriving DecidableEq

inductive FrameType
  | unknown | ethernetII | mgmt80211
  deriving DecidableEq

/-- `dhd_dbg_tx_info_t` -/
structure TxInfo where
  fate : Fate
  payloadType : FrameType
  pktHash : BitVec 32
  deriving DecidableEq

/-- `dhd_dbg_tx_report_t`; `pkt_pos` is the number of `txPkts`. -/
structure TxReport where
  txPkts : List TxInfo
  statusPos : Nat
  deriving DecidableEq

inductive MonState
  | invalid | attached | starting | started | stopping | stopped | detached
  deriving DecidableEq

/-- `dhd_dbg_pkt_mon_t` -/
structure Mon where
  txReport : TxReport
  txPktState : MonState
  txStatusState : MonState
  rxPktState : MonState
  deriving DecidableEq

/-- Where a packet is, and its number. -/
structure Pkt where
  addr : BitVec 64
  pktid : BitVec 32
  deriving DecidableEq

/-! ## Algorithm -/

def zigzag (x : BitVec 32) : BitVec 32 := if 0 ≤ x.toInt then 2 * x else -2 * x - 1

/-- `__dhd_dbg_pkt_hash` -/
def pktHash (p : Pkt) : BitVec 32 :=
  let pkt := zigzag (p.addr.truncate 32)
  let pktid := zigzag p.pktid
  if pktid ≤ pkt then pkt * pkt + pkt + pktid else pkt + pktid * pktid

/-- `__dhd_dbg_map_tx_status_to_pkt_fate` -/
def mapTxStatus : Nat → Fate
  | 0 => .acked
  | 1 => .fwQueued
  | 2 => .fwQueued
  | 3 => .fwDropInvalid
  | 4 => .sent
  | 6 => .fwDropExptime
  | 7 => .drvDropOther
  | 8 => .fwPktFree
  | 9 => .fwMaxSupRetr
  | 10 => .fwForcedExpired
  | _ => .fwDropOther

/-- `__dhd_dbg_convert_fate`: the last three fates are not told. -/
def convertFate : Fate → Fate
  | .fwPktFree => .fwDropOther
  | .fwMaxSupRetr => .fwDropOther
  | .fwForcedExpired => .fwDropOther
  | fate => fate

def MonState.isDetached (s : MonState) : Bool := s = .invalid || s = .detached

def Mon.isDetached (m : Mon) : Bool :=
  m.txPktState.isDetached || m.txStatusState.isDetached || m.rxPktState.isDetached

def startPktMonitor (m : Mon) : Mon × Int :=
  if m.isDetached then (m, -EINVAL) else (⟨⟨[], 0⟩, .started, .started, .started⟩, BCME_OK)

def stopPktMonitor (m : Mon) : Mon × Int :=
  if m.isDetached then (m, -EINVAL)
  else ({ m with txPktState := .stopped, txStatusState := .stopped, rxPktState := .stopped }, BCME_OK)

def monitorTxPkts (m : Mon) (p : Pkt) (type : FrameType) (mgmtAcked : Bool) : Mon × Int :=
  if m.txPktState = .started then
    if m.txReport.txPkts.length < MAX_FATE_LOG_LEN then
      if type = .mgmt80211 then
        let fate := if mgmtAcked then .acked else .sent
        ({ m with txReport :=
            ⟨m.txReport.txPkts ++ [⟨fate, type, pktHash p⟩], m.txReport.statusPos + 1⟩ }, BCME_OK)
      else
        ({ m with txReport :=
            ⟨m.txReport.txPkts ++ [⟨.drvQueued, type, pktHash p⟩], m.txReport.statusPos⟩ }, BCME_OK)
    else ({ m with txPktState := .stopped }, BCME_OK)
  else (m, BCME_OK)

def TxReport.hit (r : TxReport) (hash : BitVec 32) (i : Nat) : Bool :=
  (r.txPkts[i]?).any fun e => e.pktHash = hash

/-- The entry with the hash: from `statusPos` on, then from there back to the first. -/
def findHash (r : TxReport) (hash : BitVec 32) : Option Nat :=
  match (List.range' r.statusPos (r.txPkts.length - r.statusPos)).find? (r.hit hash) with
  | some i => some i
  | none => (List.range r.statusPos).reverse.find? (r.hit hash)

/-- `PKT_MON_STATUS_FULL` -/
def statusFull (r : TxReport) : Bool :=
  r.txPkts.length ≤ r.statusPos || MAX_FATE_LOG_LEN ≤ r.statusPos

def monitorTxStatus (m : Mon) (p : Pkt) (status : Nat) : Mon × Int :=
  if m.txStatusState = .started then
    if statusFull m.txReport then ({ m with txStatusState := .stopped }, BCME_OK)
    else
      match findHash m.txReport (pktHash p) with
      | none => (m, BCME_OK)
      | some i =>
        ({ m with txReport :=
            ⟨m.txReport.txPkts.modify i fun e => { e with fate := mapTxStatus status },
              m.txReport.statusPos + 1⟩ }, BCME_OK)
  else (m, BCME_OK)

/-- `dhd_dbg_monitor_get_tx_pkts` with memory for the copies: the fates that are told. -/
def monitorGetTxPkts (m : Mon) (reqCount : Nat) : Option (List Fate) :=
  if m.txPktState.isDetached || m.txStatusState.isDetached then none
  else some ((m.txReport.txPkts.take (min reqCount m.txReport.statusPos)).map fun e =>
    convertFate e.fate)

/-! ## Runs -/

inductive Call
  | start
  | stop
  | txPkt (p : Pkt) (type : FrameType) (mgmtAcked : Bool)
  | txStatus (p : Pkt) (status : Nat)
  deriving DecidableEq

/-- What has happened to a frame: a management frame has no packet. -/
structure Logged where
  pkt : Option Pkt
  fate : Fate
  deriving DecidableEq

/-- The log as it should be.  It is `live` after a start, until a stop. -/
structure Log where
  frames : List Logged
  live : Bool
  deriving DecidableEq

def Log.call (l : Log) : Call → Log
  | .start => ⟨[], true⟩
  | .stop => { l with live := false }
  | .txPkt p type mgmtAcked =>
    if l.frames.length < MAX_FATE_LOG_LEN then
      if type = .mgmt80211 then
        { l with frames := l.frames ++ [⟨none, if mgmtAcked then .acked else .sent⟩] }
      else { l with frames := l.frames ++ [⟨some p, .drvQueued⟩] }
    else l
  | .txStatus p status =>
    { l with frames := l.frames.map fun e =>
        if e.pkt = some p then { e with fate := mapTxStatus status } else e }

structure Sys where
  mon : Mon
  log : Log
  deriving DecidableEq

def attached : Sys := ⟨⟨⟨[], 0⟩, .attached, .attached, .attached⟩, ⟨[], false⟩⟩

def monitor (m : Mon) : Call → Mon × Int
  | .start => startPktMonitor m
  | .stop => stopPktMonitor m
  | .txPkt p type mgmtAcked => monitorTxPkts m p type mgmtAcked
  | .txStatus p status => monitorTxStatus m p status

def step (s : Sys) (c : Call) : Option (Sys × Int) :=
  let r := monitor s.mon c
  some (⟨r.1, s.log.call c⟩, r.2)

/-- The hashes of the data packets differ, and there is one status for each. -/
def legal (s : Sys) : Call → Bool
  | .txPkt p type _ =>
    !s.log.live || type = .mgmt80211 ||
      s.log.frames.all fun e => e.pkt.all fun q => pktHash q ≠ pktHash p
  | .txStatus p _ =>
    !s.log.live || s.log.frames.all fun e => e.pkt ≠ some p || e.fate = .drvQueued
  | _ => true

/-- The packet is logged. -/
def Log.has (l : Log) (p : Pkt) : Bool := l.frames.any fun e => e.pkt = some p

/-- The frames with a final fate. -/
def Log.finals (l : Log) : List Logged := l.frames.filter fun e => e.fate ≠ .drvQueued

/-- Until a stop the log is as it should be. -/
structure Attributes (s : Sys) : Prop where
  fates : s.mon.txReport.txPkts.map TxInfo.fate = s.log.frames.map Logged.fate
  count : s.mon.txReport.statusPos = s.log.finals.length
  reported : ∀ reqCount, monitorGetTxPkts s.mon reqCount =
    some ((s.log.finals.take reqCount).map fun e => convertFate e.fate)
  /-- A status for a packet that is not logged has not ended the log before it is full. -/
  taken : s.log.frames.length < MAX_FATE_LOG_LEN → s.mon.txStatusState = .started

/-- Of frames that wait it is the oldest one whose status comes, and one of no frame comes while
a frame waits; no frame waits when a management frame comes. -/
def inOrder (s : Sys) : Call → Bool
  | .txPkt _ type _ =>
    !s.log.live || type ≠ .mgmt80211 || MAX_FATE_LOG_LEN ≤ s.log.frames.length ||
      s.log.finals.length = s.log.frames.length
  | .txStatus p _ =>
    !s.log.live ||
      if s.log.has p then
        (s.log.frames[s.log.finals.length]?).any fun e => e.pkt = some p
      else
        s.log.finals.length = MAX_FATE_LOG_LEN ||
          (decide (s.log.finals.length < s.log.frames.length) &&
            s.mon.txReport.txPkts.all fun e => e.pktHash ≠ pktHash p)
  | _ => true

/-! ## Lists -/

variable {i : Nat} {e : TxInfo} {p : Pkt}

section
variable {α : Type*} {l : List α} {n : Nat}

/-- What is at the front is what has the property. -/
theorem filter_eq_take {P : α → Bool} (h : ∀ i e, l[i]? = some e → (i < n ↔ P e = true)) :
    l.filter P = l.take n := by
  induction l generalizing n with
  | nil => simp
  | cons a l ih =>
    cases n with
    | zero =>
      rw [List.take_zero, List.filter_eq_nil_iff]
      intro e he
      obtain ⟨i, hi⟩ := List.getElem?_of_mem he
      exact fun hP => absurd ((h i e hi).mpr hP) (Nat.not_lt_zero i)
    | succ n =>
      have ha : P a = true := (h 0 a rfl).mp (Nat.succ_pos n)
      rw [List.filter_cons_of_pos ha, List.take_succ_cons, @ih n]
      intro i e he
      rw [← h (i + 1) e he]
      omega

/-- One element has the property. -/
theorem map_ite_eq_modify {P : α → Prop} [DecidablePred P] {g : α → α} {j : Nat}
    (h : ∀ i e, l[i]? = some e → (P e ↔ i = j)) :
    l.map (fun e => if P e then g e else e) = l.modify j g := by
  apply List.ext_getElem?
  intro i
  rw [List.getElem?_map, List.getElem?_modify]
  cases hi : l[i]? with
  | none => rfl
  | some e =>
    by_cases hij : i = j
    · rw [Option.map_some, if_pos ((h i e hi).mpr hij)]
      exact congrArg some (if_pos hij.symm).symm
    · rw [Option.map_some, if_neg fun hP => hij ((h i e hi).mp hP)]
      exact congrArg some (if_neg fun hji => hij hji.symm).symm

theorem getElem?_concat_eq {x y : α} :
    (l ++ [x])[i]? = some y ↔ l[i]? = some y ∨ i = l.length ∧ y = x := by
  rcases Nat.lt_trichotomy i l.length with hlt | rfl | hgt
  · rw [List.getElem?_append_left hlt]
    exact ⟨Or.inl, fun h => h.resolve_right fun h' => by omega⟩
  · rw [List.getElem?_concat_length, List.getElem?_eq_none (Nat.le_refl _)]
    constructor
    · exact fun h => Or.inr ⟨rfl, (Option.some_inj.mp h).symm⟩
    · rintro (h | ⟨-, rfl⟩)
      · cases h
      · rfl
  · rw [List.getElem?_eq_none (by rw [List.length_append, List.length_singleton]; omega),
      List.getElem?_eq_none (Nat.le_of_lt hgt)]
    constructor
    · intro h
      cases h
    · rintro (h | ⟨rfl, -⟩)
      · cases h
      · omega

end

/-! ## The search -/

section
variable {r : TxReport} {hash : BitVec 32}

theorem hit_iff : r.hit hash i = true ↔ ∃ e, r.txPkts[i]? = some e ∧ e.pktHash = hash := by
  unfold TxReport.hit
  rw [Option.any_eq_true]
  exact exists_congr fun e => and_congr_right fun _ => decide_eq_true_iff

theorem findHash_first (h : r.txPkts[r.statusPos]? = some e) (he : e.pktHash = hash) :
    findHash r hash = some r.statusPos := by
  have hlt := (List.getElem?_eq_some_iff.mp h).1
  obtain ⟨k, hk⟩ : ∃ k, r.txPkts.length - r.statusPos = k + 1 :=
    ⟨r.txPkts.length - r.statusPos - 1, by omega⟩
  unfold findHash
  rw [hk, List.range'_succ, List.find?_cons_of_pos (hit_iff.mpr ⟨e, h, he⟩)]

theorem findHash_none (h : ∀ e ∈ r.txPkts, e.pktHash ≠ hash) : findHash r hash = none := by
  have hmiss : ∀ i, ¬ r.hit hash i = true := by
    intro i hi
    obtain ⟨e, he, hhash⟩ := hit_iff.mp hi
    exact h e (List.mem_of_getElem? he) hhash
  unfold findHash
  rw [List.find?_eq_none.mpr fun i _ => hmiss i]
  exact List.find?_eq_none.mpr fun i _ => hmiss i

/-- An entry with the hash is found, from `statusPos` on if there is one. -/
theorem findHash_some {j : Nat} (hj : r.txPkts[j]? = some e) (he : e.pktHash = hash) :
    ∃ i e', findHash r hash = some i ∧ r.txPkts[i]? = some e' ∧ e'.pktHash = hash ∧
      (r.statusPos ≤ j → r.statusPos ≤ i) := by
  have hlt := (List.getElem?_eq_some_iff.mp hj).1
  have hhit := hit_iff.mpr ⟨e, hj, he⟩
  unfold findHash
  cases hfwd : (List.range' r.statusPos (r.txPkts.length - r.statusPos)).find? (r.hit hash) with
  | some i =>
    obtain ⟨e', he', hhash⟩ := hit_iff.mp (List.find?_some hfwd)
    exact ⟨i, e', rfl, he', hhash, fun _ => (List.mem_range'_1.mp (List.mem_of_find?_eq_some hfwd)).1⟩
  | none =>
    have hbefore : j < r.statusPos := by
      by_contra hge
      exact List.find?_eq_none.mp hfwd j (List.mem_range'_1.mpr (by omega)) hhit
    cases hback : (List.range r.statusPos).reverse.find? (r.hit hash) with
    | some i =>
      obtain ⟨e', he', hhash⟩ := hit_iff.mp (List.find?_some hback)
      exact ⟨i, e', rfl, he', hhash, fun hle => absurd hbefore (by omega)⟩
    | none =>
      exact absurd hhit (List.find?_eq_none.mp hback j
        (List.mem_reverse.mpr (List.mem_range.mpr hbefore)))

end

/-! ## The invariant -/

/-- What holds of the log from a start to a stop. -/
structure Live (s : Sys) : Prop where
  fates : s.mon.txReport.txPkts.map TxInfo.fate = s.log.frames.map Logged.fate
  hashes : ∀ (i : Nat) (e : TxInfo) (f : Logged) (p : Pkt), s.mon.txReport.txPkts[i]? = some e →
    s.log.frames[i]? = some f → f.pkt = some p → e.pktHash = pktHash p
  distinct : ∀ (i j : Nat) (f g : Logged) (p q : Pkt), s.log.frames[i]? = some f → s.log.frames[j]? = some g →
    f.pkt = some p → g.pkt = some q → pktHash p = pktHash q → i = j
  final : ∀ (i : Nat) (f : Logged), s.log.frames[i]? = some f →
    (i < s.mon.txReport.statusPos ↔ f.fate ≠ .drvQueued)
  mgmt : ∀ f ∈ s.log.frames, f.pkt = none → f.fate ≠ .drvQueued
  pos : s.mon.txReport.statusPos ≤ s.log.frames.length
  len : s.log.frames.length ≤ MAX_FATE_LOG_LEN
  pktState : s.log.frames.length < MAX_FATE_LOG_LEN → s.mon.txPktState = .started
  statusState : s.mon.txReport.statusPos < MAX_FATE_LOG_LEN → s.mon.txStatusState = .started

section
variable {s : Sys}

theorem Live.length (h : Live s) : s.mon.txReport.txPkts.length = s.log.frames.length := by
  have hlen := congrArg List.length h.fates
  rwa [List.length_map, List.length_map] at hlen

theorem Live.finals (h : Live s) : s.log.finals = s.log.frames.take s.mon.txReport.statusPos :=
  filter_eq_take fun i f hf => (h.final i f hf).trans decide_eq_true_iff.symm

theorem Live.finals_length (h : Live s) : s.log.finals.length = s.mon.txReport.statusPos := by
  rw [h.finals, List.length_take, Nat.min_eq_left h.pos]

/-- The entry of a frame. -/
theorem Live.entry (h : Live s) {f : Logged} (hf : s.log.frames[i]? = some f) :
    ∃ e, s.mon.txReport.txPkts[i]? = some e ∧ e.fate = f.fate := by
  have hget : (s.mon.txReport.txPkts.map TxInfo.fate)[i]? = (s.log.frames.map Logged.fate)[i]? := by
    rw [h.fates]
  rw [List.getElem?_map, List.getElem?_map, hf, Option.map_some, Option.map_eq_some_iff] at hget
  exact hget

theorem Live.attributes (h : Live s) (hd : s.mon.isDetached = false) : Attributes s := by
  refine ⟨h.fates, h.finals_length.symm, fun reqCount => ?_, fun hlt => h.statusState ?_⟩
  · unfold Mon.isDetached at hd
    rw [Bool.or_eq_false_iff] at hd
    unfold monitorGetTxPkts
    rw [if_neg (by rw [hd.1]; decide), h.finals, List.take_take, List.map_take, List.map_take]
    have hmap : (s.mon.txReport.txPkts.map fun e => convertFate e.fate) =
        s.log.frames.map fun e => convertFate e.fate := by
      have := congrArg (List.map convertFate) h.fates
      rwa [List.map_map, List.map_map] at this
    rw [hmap]
  · have hpos := h.pos
    omega

/-- No entry that is reported waits. -/
theorem Attributes.reported_final (h : Attributes s) (he : s.mon.txReport.txPkts[i]? = some e)
    (hi : i < s.mon.txReport.statusPos) :
    e.fate ≠ .drvQueued := by
  intro hfate
  have hrep := h.reported s.mon.txReport.statusPos
  unfold monitorGetTxPkts at hrep
  split at hrep
  · cases hrep
  · have hlist := Option.some_inj.mp hrep
    have hmem : Fate.drvQueued ∈ (s.mon.txReport.txPkts.take
        (min s.mon.txReport.statusPos s.mon.txReport.statusPos)).map fun e => convertFate e.fate := by
      refine List.mem_map.mpr ⟨e, List.mem_of_getElem? (i := i) ?_, by rw [hfate]; rfl⟩
      rw [List.getElem?_take_of_lt (by omega), he]
    rw [hlist] at hmem
    obtain ⟨f, hf, hconv⟩ := List.mem_map.mp hmem
    have hfinal := of_decide_eq_true (List.mem_filter.mp (List.mem_of_mem_take hf)).2
    revert hconv hfinal
    cases f.fate <;> decide

/-- A frame is logged: it waits, or none does. -/
theorem Live.push (h : Live s) {f : Logged} {n : Nat} (hlt : s.log.frames.length < MAX_FATE_LOG_LEN)
    (hfate : e.fate = f.fate)
    (hhash : ∀ p, f.pkt = some p → e.pktHash = pktHash p ∧
      ∀ g ∈ s.log.frames, ∀ q, g.pkt = some q → pktHash q ≠ pktHash p)
    (hmgmt : f.pkt = none → f.fate ≠ .drvQueued)
    (hn : n = s.mon.txReport.statusPos ∧ f.fate = .drvQueued ∨
      n = s.mon.txReport.statusPos + 1 ∧ s.mon.txReport.statusPos = s.log.frames.length ∧
        f.fate ≠ .drvQueued) :
    Live ⟨{ s.mon with txReport := ⟨s.mon.txReport.txPkts ++ [e], n⟩ },
      { s.log with frames := s.log.frames ++ [f] }⟩ := by
  have hpos := h.pos
  have hlen := h.length
  refine ⟨?_, ?_, ?_, ?_, ?_, ?_, ?_, fun _ => h.pktState hlt, fun _ => h.statusState (by omega)⟩
  · dsimp only
    rw [List.map_append, List.map_append, h.fates, List.map_singleton, List.map_singleton, hfate]
  · intro i e' f' p he' hf' hp
    rcases getElem?_concat_eq.mp hf' with hf' | ⟨hi, rfl⟩
    · rcases getElem?_concat_eq.mp he' with he' | ⟨hi, -⟩
      · exact h.hashes i e' f' p he' hf' hp
      · have hbound := (List.getElem?_eq_some_iff.mp hf').1
        omega
    · rcases getElem?_concat_eq.mp he' with he' | ⟨-, rfl⟩
      · have hbound := (List.getElem?_eq_some_iff.mp he').1
        omega
      · exact (hhash p hp).1
  · intro i j f' g' p q hf' hg' hp hq heq
    rcases getElem?_concat_eq.mp hf' with hf₁ | ⟨hi, hff⟩
    · rcases getElem?_concat_eq.mp hg' with hg₁ | ⟨hj, hgf⟩
      · exact h.distinct i j f' g' p q hf₁ hg₁ hp hq heq
      · rw [hgf] at hq
        exact absurd heq ((hhash q hq).2 f' (List.mem_of_getElem? hf₁) p hp)
    · rw [hff] at hp
      rcases getElem?_concat_eq.mp hg' with hg₁ | ⟨hj, hgf⟩
      · exact absurd heq.symm ((hhash p hp).2 g' (List.mem_of_getElem? hg₁) q hq)
      · rw [hi, hj]
  · intro i f' hf'
    dsimp only
    rcases getElem?_concat_eq.mp hf' with hf' | ⟨hi, rfl⟩
    · have hbound := (List.getElem?_eq_some_iff.mp hf').1
      rw [← h.final i f' hf']
      omega
    · rcases hn with ⟨rfl, hq⟩ | ⟨rfl, hp, hq⟩
      · exact iff_of_false (by omega) (not_not.mpr hq)
      · exact iff_of_true (by omega) hq
  · intro f' hf'
    rcases List.mem_append.mp hf' with hf' | hf'
    · exact h.mgmt f' hf'
    · obtain rfl := List.mem_singleton.mp hf'
      exact hmgmt
  · dsimp only
    rw [List.length_append, List.length_singleton]
    omega
  · dsimp only
    rw [List.length_append, List.length_singleton]
    omega

/-- The status of the oldest frame that waits. -/
theorem Live.attribute (h : Live s) {f : Logged} {fate : Fate}
    (hf : s.log.frames[s.mon.txReport.statusPos]? = some f) (hp : f.pkt = some p)
    (hfate : fate ≠ .drvQueued) :
    Live ⟨{ s.mon with txReport :=
        ⟨s.mon.txReport.txPkts.modify s.mon.txReport.statusPos fun e => { e with fate := fate },
          s.mon.txReport.statusPos + 1⟩ },
      { s.log with frames := s.log.frames.map fun e =>
        if e.pkt = some p then { e with fate := fate } else e }⟩ := by
  have hmodify : (s.log.frames.map fun e => if e.pkt = some p then { e with fate := fate } else e) =
      s.log.frames.modify s.mon.txReport.statusPos fun e => { e with fate := fate } := by
    refine map_ite_eq_modify fun i g hg => ⟨fun hgp => ?_, fun hi => ?_⟩
    · exact h.distinct i _ g f p p hg hf hgp hp rfl
    · rw [hi, hf] at hg
      rw [← Option.some_inj.mp hg, hp]
  have hbound := (List.getElem?_eq_some_iff.mp hf).1
  have hlen := h.len
  rw [hmodify]
  -- what an entry was before
  have hbefore : ∀ i g, (s.log.frames.modify s.mon.txReport.statusPos
      fun e => { e with fate := fate })[i]? = some g → ∃ g', s.log.frames[i]? = some g' ∧
        g'.pkt = g.pkt ∧ g.fate = if i = s.mon.txReport.statusPos then fate else g'.fate := by
    intro i g hg
    rw [List.getElem?_modify] at hg
    obtain ⟨g', hg', rfl⟩ := Option.map_eq_some_iff.mp hg
    refine ⟨g', hg', ?_⟩
    by_cases hi : s.mon.txReport.statusPos = i
    · rw [if_pos hi, if_pos hi.symm]
      exact ⟨rfl, rfl⟩
    · rw [if_neg hi, if_neg fun hi' => hi hi'.symm]
      exact ⟨rfl, rfl⟩
  refine ⟨?_, ?_, ?_, ?_, ?_, ?_, ?_, ?_, fun _ => h.statusState (by omega)⟩
  · apply List.ext_getElem?
    intro i
    have hget : (s.mon.txReport.txPkts.map TxInfo.fate)[i]? = (s.log.frames.map Logged.fate)[i]? := by
      rw [h.fates]
    rw [List.getElem?_map, List.getElem?_map] at hget ⊢
    dsimp only
    rw [List.getElem?_modify, List.getElem?_modify]
    by_cases hi : s.mon.txReport.statusPos = i
    · obtain ⟨e, he, -⟩ := h.entry hf
      rw [← hi, hf, he]
      simp
    · simp only [if_neg hi, id_map']
      exact hget
  · intro i e g q he hg hq
    obtain ⟨g', hg', hpkt, -⟩ := hbefore i g hg
    dsimp only at he
    rw [List.getElem?_modify] at he
    obtain ⟨e', he', rfl⟩ := Option.map_eq_some_iff.mp he
    have hhash := h.hashes i e' g' q he' hg' (hpkt.trans hq)
    split
    · exact hhash
    · exact hhash
  · intro i j g₁ g₂ q₁ q₂ hg₁ hg₂ hq₁ hq₂ heq
    obtain ⟨g₁', hg₁', hpkt₁, -⟩ := hbefore i g₁ hg₁
    obtain ⟨g₂', hg₂', hpkt₂, -⟩ := hbefore j g₂ hg₂
    exact h.distinct i j g₁' g₂' q₁ q₂ hg₁' hg₂' (hpkt₁.trans hq₁) (hpkt₂.trans hq₂) heq
  · intro i g hg
    obtain ⟨g', hg', -, hgfate⟩ := hbefore i g hg
    have hfinal := h.final i g' hg'
    dsimp only
    rw [hgfate]
    by_cases hi : i = s.mon.txReport.statusPos
    · rw [if_pos hi]
      exact iff_of_true (by omega) hfate
    · rw [if_neg hi, ← hfinal]
      omega
  · intro g hg hpkt
    obtain ⟨i, hi⟩ := List.getElem?_of_mem hg
    obtain ⟨g', hg', hpkt', hgfate⟩ := hbefore i g hi
    rw [hgfate]
    split
    · exact hfate
    · exact h.mgmt g' (List.mem_of_getElem? hg') (hpkt'.trans hpkt)
  · dsimp only
    rw [List.length_modify]
    exact hbound
  · dsimp only
    rw [List.length_modify]
    exact hlen
  · intro hlt
    rw [List.length_modify] at hlt
    exact h.pktState hlt

end

theorem mapTxStatus_ne (status : Nat) : mapTxStatus status ≠ .drvQueued := by
  unfold mapTxStatus
  split <;> decide

theorem has_iff {l : Log} :
    l.has p = true ↔ ∃ (i : Nat) (f : Logged), l.frames[i]? = some f ∧ f.pkt = some p := by
  unfold Log.has
  rw [List.any_eq_true]
  constructor
  · rintro ⟨f, hf, hp⟩
    obtain ⟨i, hi⟩ := List.getElem?_of_mem hf
    exact ⟨i, f, hi, of_decide_eq_true hp⟩
  · rintro ⟨i, f, hi, hp⟩
    exact ⟨f, List.mem_of_getElem? hi, decide_eq_true hp⟩

/-! ## Steps -/

section
variable {s : Sys}

/-- A data packet is logged, or the log is full. -/
theorem Live.data (h : Live s) {type : FrameType} {mgmtAcked : Bool} (htype : type ≠ .mgmt80211)
    (hl : s.log.live = true → legal s (.txPkt p type mgmtAcked) = true)
    (hlive : s.log.live = true) :
    Live ⟨(monitorTxPkts s.mon p type mgmtAcked).1, s.log.call (.txPkt p type mgmtAcked)⟩ := by
  have hlen := h.length
  unfold monitorTxPkts Log.call
  by_cases hlt : s.log.frames.length < MAX_FATE_LOG_LEN
  · have hlegal := hl hlive
    unfold legal at hlegal
    rw [hlive] at hlegal
    simp only [Bool.not_true, Bool.false_or, Bool.or_eq_true, decide_eq_true_eq, htype, false_or,
      List.all_eq_true] at hlegal
    dsimp only
    rw [if_pos (h.pktState hlt), if_pos (by omega), if_neg htype, if_pos hlt, if_neg htype]
    refine h.push hlt rfl (fun q hq => ⟨?_, fun g hg q' hq' => ?_⟩) (fun hnone => ?_)
      (Or.inl ⟨rfl, rfl⟩)
    · rw [Option.some_inj.mp hq]
    · have hne := hlegal g hg
      rw [hq', Option.all_some, decide_eq_true_eq] at hne
      rw [← Option.some_inj.mp hq]
      exact hne
    · cases hnone
  · dsimp only
    rw [if_neg hlt]
    split
    · rw [if_neg (by omega)]
      exact ⟨h.fates, h.hashes, h.distinct, h.final, h.mgmt, h.pos, h.len,
        fun hlt' => absurd hlt' hlt, h.statusState⟩
    · exact h

/-- A management frame is logged while no frame waits, or the log is full. -/
theorem Live.mgmtFrame (h : Live s) {mgmtAcked : Bool}
    (hpos : s.log.frames.length < MAX_FATE_LOG_LEN →
      s.mon.txReport.statusPos = s.log.frames.length) :
    Live ⟨(monitorTxPkts s.mon p .mgmt80211 mgmtAcked).1,
      s.log.call (.txPkt p .mgmt80211 mgmtAcked)⟩ := by
  have hlen := h.length
  unfold monitorTxPkts Log.call
  by_cases hlt : s.log.frames.length < MAX_FATE_LOG_LEN
  · dsimp only
    rw [if_pos (h.pktState hlt), if_pos (by omega), if_pos rfl, if_pos hlt, if_pos rfl]
    have hfate : (if mgmtAcked = true then Fate.acked else Fate.sent) ≠ .drvQueued := by
      cases mgmtAcked <;> decide
    exact h.push hlt rfl (fun q hq => by cases hq) (fun _ => hfate)
      (Or.inr ⟨rfl, hpos hlt, hfate⟩)
  · dsimp only
    rw [if_neg hlt]
    split
    · rw [if_neg (by omega)]
      exact ⟨h.fates, h.hashes, h.distinct, h.final, h.mgmt, h.pos, h.len,
        fun hlt' => absurd hlt' hlt, h.statusState⟩
    · exact h

/-- A management frame is logged while a frame waits: that one is reported. -/
theorem Live.mgmtFrame_bad (h : Live s) {mgmtAcked : Bool}
    (hlt : s.log.frames.length < MAX_FATE_LOG_LEN)
    (hpos : s.mon.txReport.statusPos < s.log.frames.length) :
    ¬ Attributes ⟨(monitorTxPkts s.mon p .mgmt80211 mgmtAcked).1,
      s.log.call (.txPkt p .mgmt80211 mgmtAcked)⟩ := by
  intro hattr
  have hlen := h.length
  obtain ⟨f, hf⟩ : ∃ f, s.log.frames[s.mon.txReport.statusPos]? = some f :=
    ⟨_, List.getElem?_eq_getElem hpos⟩
  obtain ⟨e, he, hfate⟩ := h.entry hf
  have hwait : f.fate = .drvQueued := by
    have hnot := mt (h.final _ f hf).mpr (Nat.lt_irrefl _)
    exact not_not.mp hnot
  have hmon : (monitorTxPkts s.mon p .mgmt80211 mgmtAcked).1.txReport =
      ⟨s.mon.txReport.txPkts ++ [⟨if mgmtAcked then .acked else .sent, .mgmt80211, pktHash p⟩],
        s.mon.txReport.statusPos + 1⟩ := by
    unfold monitorTxPkts
    rw [if_pos (h.pktState hlt), if_pos (by omega), if_pos rfl]
  refine hattr.reported_final (i := s.mon.txReport.statusPos) (e := e) ?_ ?_ (hfate.trans hwait)
  · rw [hmon]
    dsimp only
    rw [List.getElem?_append_left (by omega)]
    exact he
  · rw [hmon]
    exact Nat.lt_succ_self _

/-- A status for a packet that is not logged. -/
theorem call_txStatus_of_not_has {l : Log} (h : l.has p = false) (status : Nat) :
    l.call (.txStatus p status) = l := by
  have hmap : (l.frames.map fun e =>
      if e.pkt = some p then { e with fate := mapTxStatus status } else e) = l.frames := by
    refine (List.map_congr_left fun e he => if_neg fun hp => ?_).trans (List.map_id _)
    obtain ⟨i, hi⟩ := List.getElem?_of_mem he
    rw [has_iff.mpr ⟨i, e, hi, hp⟩] at h
    cases h
  unfold Log.call
  dsimp only
  rw [hmap]

theorem statusFull_of_lt {r : TxReport} (h : r.statusPos < r.txPkts.length)
    (hlen : r.txPkts.length ≤ MAX_FATE_LOG_LEN) : statusFull r = false := by
  unfold statusFull
  rw [Bool.or_eq_false_iff, decide_eq_false_iff_not, decide_eq_false_iff_not]
  omega

/-- A status that comes in order. -/
theorem Live.status (h : Live s) {status : Nat} (hlive : s.log.live = true)
    (ho : inOrder s (.txStatus p status) = true) :
    Live ⟨(monitorTxStatus s.mon p status).1, s.log.call (.txStatus p status)⟩ := by
  have hlen := h.length
  have hmax := h.len
  unfold inOrder at ho
  dsimp only at ho
  rw [hlive, Bool.not_true, Bool.false_or, h.finals_length] at ho
  cases hhas : s.log.has p with
  | true =>
    rw [hhas, if_pos rfl, Option.any_eq_true] at ho
    obtain ⟨f, hf, hp⟩ := ho
    have hp := of_decide_eq_true hp
    obtain ⟨e, he, -⟩ := h.entry hf
    have hlt := (List.getElem?_eq_some_iff.mp hf).1
    unfold monitorTxStatus
    rw [if_pos (h.statusState (by omega)), statusFull_of_lt (by omega) (by omega),
      if_neg Bool.false_ne_true, findHash_first he (h.hashes _ e f p he hf hp)]
    exact h.attribute hf hp (mapTxStatus_ne status)
  | false =>
    rw [hhas, if_neg Bool.false_ne_true, Bool.or_eq_true, Bool.and_eq_true, decide_eq_true_eq,
      decide_eq_true_eq, List.all_eq_true] at ho
    rw [call_txStatus_of_not_has hhas]
    unfold monitorTxStatus
    rcases ho with hfull | ⟨hlt, hall⟩
    · have hstop : statusFull s.mon.txReport = true := by
        unfold statusFull
        rw [Bool.or_eq_true, decide_eq_true_eq, decide_eq_true_eq]
        omega
      rw [hstop, if_pos rfl]
      split
      · exact ⟨h.fates, h.hashes, h.distinct, h.final, h.mgmt, h.pos, h.len, h.pktState,
          fun hlt => absurd hlt (by dsimp only; omega)⟩
      · exact h
    · rw [if_pos (h.statusState (by omega)), statusFull_of_lt (by omega) (by omega),
        if_neg Bool.false_ne_true, findHash_none fun e he => of_decide_eq_true (hall e he)]
      exact h

/-- A status that does not. -/
theorem Live.status_bad (h : Live s) {status : Nat} (hlive : s.log.live = true)
    (hl : legal s (.txStatus p status) = true) (ho : inOrder s (.txStatus p status) = false) :
    ¬ Attributes ⟨(monitorTxStatus s.mon p status).1, s.log.call (.txStatus p status)⟩ := by
  intro hattr
  have hlen := h.length
  have hmax := h.len
  have hpos := h.pos
  unfold inOrder at ho
  dsimp only at ho
  rw [hlive, Bool.not_true, Bool.false_or, h.finals_length] at ho
  cases hhas : s.log.has p with
  | true =>
    rw [hhas, if_pos rfl, Option.any_eq_false] at ho
    obtain ⟨j, f, hf, hp⟩ := has_iff.mp hhas
    have hlt := (List.getElem?_eq_some_iff.mp hf).1
    have hwait : f.fate = .drvQueued := by
      unfold legal at hl
      dsimp only at hl
      rw [hlive, Bool.not_true, Bool.false_or, List.all_eq_true] at hl
      have hor := hl f (List.mem_of_getElem? hf)
      rw [Bool.or_eq_true, decide_eq_true_eq, decide_eq_true_eq] at hor
      exact hor.resolve_left fun hne => hne hp
    have hge : s.mon.txReport.statusPos ≤ j := by
      by_contra hlt'
      exact (h.final j f hf).mp (by omega) hwait
    have hne : j ≠ s.mon.txReport.statusPos := by
      intro heq
      rw [heq] at hf
      exact of_decide_eq_false (ho f hf) hp
    -- the packet is found
    obtain ⟨e, he, -⟩ := h.entry hf
    obtain ⟨i, e', hfind, he', hhash, hi⟩ := findHash_some he (h.hashes j e f p he hf hp)
    have hij : i = j := by
      obtain ⟨g, hg⟩ : ∃ g, s.log.frames[i]? = some g :=
        ⟨_, List.getElem?_eq_getElem (hlen ▸ (List.getElem?_eq_some_iff.mp he').1)⟩
      have hgwait : g.fate = .drvQueued :=
        not_not.mp (mt (h.final i g hg).mpr (Nat.not_lt_of_le (hi hge)))
      cases hq : g.pkt with
      | none => exact absurd hgwait (h.mgmt g (List.mem_of_getElem? hg) hq)
      | some q =>
        exact h.distinct i j g f q p hg hf hq hp ((h.hashes i e' g q he' hg hq).symm.trans hhash)
    have hmon : (monitorTxStatus s.mon p status).1.txReport =
        ⟨s.mon.txReport.txPkts.modify j fun e => { e with fate := mapTxStatus status },
          s.mon.txReport.statusPos + 1⟩ := by
      unfold monitorTxStatus
      rw [if_pos (h.statusState (by omega)), statusFull_of_lt (by omega) (by omega),
        if_neg Bool.false_ne_true, hfind, hij]
    -- and the oldest one that waits is reported
    obtain ⟨g, hg⟩ : ∃ g, s.log.frames[s.mon.txReport.statusPos]? = some g :=
      ⟨_, List.getElem?_eq_getElem (by omega)⟩
    obtain ⟨e₀, he₀, hfate₀⟩ := h.entry hg
    have hgwait : g.fate = .drvQueued := not_not.mp (mt (h.final _ g hg).mpr (Nat.lt_irrefl _))
    refine hattr.reported_final (i := s.mon.txReport.statusPos) (e := e₀) ?_ ?_
      (hfate₀.trans hgwait)
    · rw [hmon]
      dsimp only
      rw [List.getElem?_modify, he₀]
      exact congrArg some (if_neg hne)
    · rw [hmon]
      exact Nat.lt_succ_self _
  | false =>
    rw [hhas, if_neg Bool.false_ne_true, Bool.or_eq_false_iff, decide_eq_false_iff_not] at ho
    rw [call_txStatus_of_not_has hhas] at hattr
    by_cases hlt : s.mon.txReport.statusPos < s.log.frames.length
    · have hany : ¬ (s.mon.txReport.txPkts.all fun e => e.pktHash ≠ pktHash p) = true := by
        intro hall
        have hand := ho.2
        rw [hall, decide_eq_true hlt] at hand
        cases hand
      obtain ⟨e, he, hhash⟩ : ∃ e ∈ s.mon.txReport.txPkts, e.pktHash = pktHash p := by
        by_contra hnone
        refine hany (List.all_eq_true.mpr fun e he => decide_eq_true fun hhash => ?_)
        exact hnone ⟨e, he, hhash⟩
      obtain ⟨j, hj⟩ := List.getElem?_of_mem he
      obtain ⟨i, e', hfind, -⟩ := findHash_some hj hhash
      have hcount := hattr.count
      unfold monitorTxStatus at hcount
      rw [if_pos (h.statusState (by omega)), statusFull_of_lt (by omega) (by omega),
        if_neg Bool.false_ne_true, hfind] at hcount
      have hfinals := h.finals_length
      dsimp only at hcount
      omega
    · have hshort : s.log.frames.length < MAX_FATE_LOG_LEN := by omega
      have htaken := hattr.taken hshort
      have hstop : statusFull s.mon.txReport = true := by
        unfold statusFull
        rw [Bool.or_eq_true, decide_eq_true_eq, decide_eq_true_eq]
        omega
      unfold monitorTxStatus at htaken
      rw [if_pos (h.statusState (by omega)), hstop, if_pos rfl] at htaken
      cases htaken

end

/-! ## Top theorem -/

/-- The monitor is attached, and from a start to a stop the log is as it should be. -/
def Inv (s : Sys) : Prop := s.mon.isDetached = false ∧ (s.log.live = true → Live s)

theorem isDetached_monitor {m : Mon} (h : m.isDetached = false) (c : Call) :
    (monitor m c).1.isDetached = false := by
  have hstates := h
  unfold Mon.isDetached at hstates
  rw [Bool.or_eq_false_iff, Bool.or_eq_false_iff] at hstates
  obtain ⟨⟨hpkt, hstatus⟩, hrx⟩ := hstates
  have hstopped : MonState.stopped.isDetached = false := rfl
  cases c with
  | start =>
    unfold monitor startPktMonitor
    dsimp only
    rw [h, if_neg Bool.false_ne_true]
    rfl
  | stop =>
    unfold monitor stopPktMonitor
    dsimp only
    rw [h, if_neg Bool.false_ne_true]
    rfl
  | txPkt p type mgmtAcked =>
    unfold monitor monitorTxPkts
    dsimp only
    split
    · split
      · split
        · exact h
        · exact h
      · unfold Mon.isDetached
        dsimp only
        rw [hstopped, hstatus, hrx]
        rfl
    · exact h
  | txStatus p status =>
    unfold monitor monitorTxStatus
    dsimp only
    split
    · split
      · unfold Mon.isDetached
        dsimp only
        rw [hpkt, hstopped, hrx]
        rfl
      · split
        · exact h
        · exact h
    · exact h

theorem live_start (m : Mon) (l : Log) (h : m.isDetached = false) :
    Live ⟨(startPktMonitor m).1, l.call .start⟩ := by
  unfold startPktMonitor Log.call
  rw [h, if_neg Bool.false_ne_true]
  refine ⟨rfl, ?_, ?_, ?_, ?_, Nat.le_refl _, Nat.zero_le _, fun _ => rfl, fun _ => rfl⟩
  · intro i e f p he
    cases he
  · intro i j f g p q hf
    cases hf
  · intro i f hf
    cases hf
  · intro f hf
    cases hf

theorem Inv.step {s s' : Sys} {c : Call} {r : Int} (h : Inv s)
    (hc : (legal s c && inOrder s c) = true) (hs : PktMon.step s c = some (s', r)) : Inv s' := by
  rw [Bool.and_eq_true] at hc
  obtain ⟨rfl, -⟩ := Prod.mk.inj (Option.some_inj.mp hs)
  refine ⟨isDetached_monitor h.1 c, fun hlive => ?_⟩
  cases c with
  | start => exact live_start s.mon s.log h.1
  | stop => cases hlive
  | txPkt p type mgmtAcked =>
    have hlive' : s.log.live = true := by
      unfold Log.call at hlive
      dsimp only at hlive
      split at hlive
      · split at hlive
        · exact hlive
        · exact hlive
      · exact hlive
    have hl := h.2 hlive'
    by_cases htype : type = .mgmt80211
    · subst htype
      refine hl.mgmtFrame fun hlt => ?_
      have ho := hc.2
      unfold inOrder at ho
      dsimp only at ho
      rw [hlive', decide_eq_false (Nat.not_le_of_lt hlt), hl.finals_length] at ho
      simpa using ho
    · exact hl.data htype (fun _ => hc.1) hlive'
  | txStatus p status => exact (h.2 hlive).status hlive hc.2

/-- A call that is not in order spoils the log. -/
theorem Inv.spoiled {s s' : Sys} {c : Call} {r : Int} (h : Inv s) (hl : legal s c = true)
    (ho : inOrder s c = false) (hs : PktMon.step s c = some (s', r)) :
    ¬ (s'.log.live = true → Attributes s') := by
  obtain ⟨rfl, -⟩ := Prod.mk.inj (Option.some_inj.mp hs)
  intro hattr
  cases c with
  | start => cases ho
  | stop => cases ho
  | txPkt p type mgmtAcked =>
    unfold inOrder at ho
    dsimp only at ho
    rw [Bool.or_eq_false_iff, Bool.or_eq_false_iff, Bool.or_eq_false_iff, Bool.not_eq_false',
      decide_eq_false_iff_not, decide_eq_false_iff_not, decide_eq_false_iff_not, not_not] at ho
    obtain ⟨⟨⟨hlive, htype⟩, hlt⟩, hwait⟩ := ho
    subst htype
    have hlv := h.2 hlive
    have hpos := hlv.pos
    rw [hlv.finals_length] at hwait
    have hlt := Nat.lt_of_not_le hlt
    refine hlv.mgmtFrame_bad hlt (by omega) (hattr ?_)
    unfold Log.call
    dsimp only
    rw [if_pos hlt, if_pos rfl]
    exact hlive
  | txStatus p status =>
    have hlive : s.log.live = true := by
      unfold inOrder at ho
      dsimp only at ho
      rw [Bool.or_eq_false_iff, Bool.not_eq_false'] at ho
      exact ho.1
    exact (h.2 hlive).status_bad hlive hl ho (hattr hlive)

/-- **Fates.**  In every state of a run the log is as it should be, just when all calls are in
order. -/
theorem fate_log_iff (calls : List Call) (t : Sys) (tr : List (Call × Int))
    (hl : meets step legal attached calls = true) (hr : runs step attached calls = some (t, tr)) :
    (∀ before after u tr₁, before ++ after = calls →
        runs step attached before = some (u, tr₁) → u.log.live = true → Attributes u) ↔
      meets step inOrder attached calls = true := by
  have h0 : Inv attached := ⟨rfl, fun h => by cases h⟩
  constructor
  · exact meets_of_prefixes step legal inOrder (fun s _ => Inv s)
      (fun s _ => s.log.live = true → Attributes s) (fun s _ c s' r h hc hs => h.step hc hs)
      (fun s _ c s' r h hlc hoc hs => h.spoiled hlc hoc hs) attached t calls tr h0 hl hr
  · rintro ho before after u tr₁ rfl hbefore hlive
    have hboth := meets_and step legal inOrder _ _ (meets_of_append _ _ _ _ _ hl)
      (meets_of_append _ _ _ _ _ ho)
    have hinv := runs_inv_of_meets step _ (fun s _ => Inv s)
      (fun s _ c s' r h hc hs => h.step hc hs) attached u before tr₁ h0 hboth hbefore
    exact (hinv.2 hlive).attributes hinv.1

def firstPkt : Pkt := ⟨0#64, 1#32⟩
def secondPkt : Pkt := ⟨0#64, 2#32⟩

/-- Two frames, and the statuses in their order. -/
def ordered : List Call :=
  [.start, .txPkt firstPkt .ethernetII false, .txPkt secondPkt .ethernetII false,
    .txStatus firstPkt 0, .txStatus secondPkt 1]

theorem fate_log_ordered :
    ∃ u tr, runs step attached ordered = some (u, tr) ∧ u.log.live = true ∧ Attributes u := by
  have hall := (fate_log_iff ordered _ _ rfl rfl).mpr rfl
  exact ⟨_, _, rfl, rfl, hall ordered [] _ _ rfl rfl rfl⟩

/-- Two frames, and the status of the second one. -/
def swapped : List Call :=
  [.start, .txPkt firstPkt .ethernetII false, .txPkt secondPkt .ethernetII false,
    .txStatus secondPkt 0]

/-- The first frame is the one that is reported, and it waits. -/
theorem fate_log_fails :
    meets step legal attached swapped = true ∧
    ∃ u tr, runs step attached swapped = some (u, tr) ∧ u.log.live = true ∧ ¬ Attributes u := by
  refine ⟨rfl, _, _, rfl, rfl, fun hattr => ?_⟩
  have hreported := hattr.reported 1
  exact absurd hreported (by decide)

end Bcmdhd.DbgRing.PktMon
