import Bcmdhd.Lib.Runs
import Bcmdhd.Lib.SeqWindow

/-!
# Transmit credits of the SDIO bus (`tx_seq`, `tx_max`)

Each frame received names the end of the window (`tx_max`) that the dongle offers; each frame
sent takes the next number (`tx_seq`).  `dhd_bus_txdata`, `dhdsdio_sendfromq`,
`dhdsdio_sendpendctl` and `dhd_bus_txctl` test the window and send; only the first tests it
before it takes the bus lock.

    runs (step conf) init es = some (s, tr) →  what dhd_bus_txdata tested still holds when it sends →
      the window is kept, by every frame, and frames are numbered one after the other
                                                                        (sdio_tx_credits)
-/

namespace Bcmdhd.Sdio.TxCredits

open Runs SeqWindow

/-! ## Algorithm -/

/-- `data_drop_mode` -/
inductive DataDropMode
  | noDataDrop | fwDrop | txpktDrop | xmitDrop
  deriving DecidableEq

/-- Settings that do not change while the bus is up. -/
structure Conf where
  deferredTx : Bool
  txglomEnable : Bool
  txglomsize : Nat
  txMaxOffset : Int
  txctlTmoFix : Bool
  dataDropMode : DataDropMode

inductive Chan
  | control | data
  deriving DecidableEq

/-- A call of `dhd_bcmsdh_send_buf`: the number in each frame, and the bus as it was. -/
structure Write where
  chan : Chan
  seqs : List (BitVec 8)
  txSeq : BitVec 8
  txMax : BitVec 8
  ok : Bool

structure Bus where
  txSeq : BitVec 8
  txMax : BitVec 8
  ctrlFrameStat : Bool
  /-- the sequence byte in `ctrl_frame_buf` -/
  ctrlFrameSeq : BitVec 8
  /-- calls so far, oldest first -/
  writes : List Write

/-- `tx_max - tx_seq`, a `uint8` -/
def Bus.window (b : Bus) : Nat := offered b.txSeq b.txMax

def Write.window (wr : Write) : Nat := offered wr.txSeq wr.txMax

/-- Bit 7 of the difference is clear. -/
def Bus.inOrder (b : Bus) : Bool := (b.txMax - b.txSeq) &&& 0x80#8 = 0#8

def dataok (conf : Conf) (b : Bus) : Bool :=
  1 < (b.window : Int) - conf.txMaxOffset ∧ b.inOrder

def txctlok (b : Bus) : Bool := b.window ≠ 0 ∧ b.inOrder

/-- A `uint8` -/
def databufcnt (conf : Conf) (b : Bus) : Nat :=
  (BitVec.ofInt 8 ((b.window : Int) - 1 - conf.txMaxOffset)).toNat

/-- `MAX_TX_PKTCHAIN_CNT` -/
def maxTxPktchainCnt : Nat := 36

/-- `dhd_bcmsdh_send_buf`, and `tx_seq` advanced if it succeeds -/
def sendBuf (b : Bus) (chan : Chan) (seqs : List (BitVec 8)) (ok : Bool) : Bus :=
  { b with
    txSeq := if ok then b.txSeq + BitVec.ofNat 8 seqs.length else b.txSeq
    writes := b.writes ++ [⟨chan, seqs, b.txSeq, b.txMax, ok⟩] }

/-- What a call of `dhdsdio_txpkt` meets: whether every packet could be prepared, their
length, and whether the write succeeds. -/
structure Io where
  prepared : Bool
  totalLen : Nat
  ok : Bool

/-- `data_drop_mode` takes the place of the write. -/
def drops (conf : Conf) (io : Io) : Bool := conf.dataDropMode = .txpktDrop ∧ 500 < io.totalLen

def dhdsdioTxpkt (conf : Conf) (b : Bus) (numPkt : Nat) (io : Io) : Bus :=
  if io.prepared then
    if drops conf io then { b with txSeq := b.txSeq + BitVec.ofNat 8 numPkt }
    else sendBuf b .data (numbers b.txSeq numPkt) io.ok
  else b

/-- Packets of the next batch of `dhdsdio_sendfromq`, with `mlen` in the queue -/
def numPkt (conf : Conf) (b : Bus) (mlen : Nat) : Nat :=
  if conf.txglomEnable then
    min (min (min (databufcnt conf b) conf.txglomsize) maxTxPktchainCnt) mlen
  else min 1 mlen

/-- The loop of `dhdsdio_sendfromq` -/
structure Loop where
  cnt : Nat
  maxframes : Nat

/-- One turn of the loop; `stop` is the exit in poll mode. -/
def sendfromqTurn (conf : Conf) (b : Bus) (l : Loop) (mlen : Nat) (io : Io) (stop : Bool) :
    Bus × Option Loop :=
  if l.cnt < l.maxframes ∧ dataok conf b then
    if numPkt conf b mlen = 0 then (b, none)
    else
      (dhdsdioTxpkt conf b (numPkt conf b mlen) io,
        if stop then none else some { l with cnt := l.cnt + numPkt conf b mlen })
  else (b, none)

/-- The number in the frame is corrected before it is sent. -/
def dhdsdioSendpendctl (b : Bus) (ok : Bool) : Bus :=
  { sendBuf { b with ctrlFrameSeq := b.txSeq } .control [b.txSeq] ok with ctrlFrameStat := false }

/-- `dhd_bus_txctl` from where the frame is built, and whether it waits for
`dhdsdio_sendpendctl` -/
def dhdBusTxctl (b : Bus) (ok : Bool) : Bus × Bool :=
  if txctlok b then
    ({ sendBuf b .control [b.txSeq] ok with ctrlFrameStat := false }, false)
  else ({ b with ctrlFrameStat := true, ctrlFrameSeq := b.txSeq }, true)

/-- The window check in `dhdsdio_readframes` and `dhdsdio_rxglom` -/
def rxWindow (b : Bus) (txmax : BitVec 8) : Bus :=
  { b with txMax := if 0x70 < offered b.txSeq txmax then b.txMax else txmax }

/-! ## Contexts -/

/-- The bus and where its users are: `ready` have passed the test of `dhd_bus_txdata` and want the
lock, `waitCredit` wait in `dhd_bus_txctl` for a credit, `waitSent` for their frame to be sent.
The lock is taken while `dhdsdio_sendfromq` is in its loop. -/
structure State where
  bus : Bus
  ready : Nat
  fromq : Option Loop
  waitCredit : Nat
  waitSent : Nat

inductive Act
  /-- the test; `busy` stands for its other terms (queue, flow control, clock, scheduled dpc) -/
  | txdataTest (busy : Bool)
  | txdataSend (io : Io)
  | sendfromq (maxframes : Nat)
  | sendfromqTurn (mlen : Nat) (io : Io) (stop : Bool)
  | sendpendctl (clkAvail ok : Bool)
  | txctl (ok : Bool)
  /-- woken, or timed out, before the frame is built -/
  | txctlResume (ok : Bool)
  /-- woken, or timed out, with the frame in `ctrl_frame_buf` -/
  | txctlDone
  | rx (txmax : BitVec 8)

def enterTxctl (s : State) (ok : Bool) : State :=
  let r := dhdBusTxctl s.bus ok
  { s with bus := r.1, waitSent := if r.2 then s.waitSent + 1 else s.waitSent }

def step (conf : Conf) (s : State) : Act → Option (State × Unit)
  | .txdataTest busy =>
    if conf.deferredTx ∨ busy ∨ ¬ dataok conf s.bus then some (s, ())
    else some ({ s with ready := s.ready + 1 }, ())
  | .txdataSend io =>
    if s.fromq.isNone ∧ 0 < s.ready then
      some ({ s with bus := dhdsdioTxpkt conf s.bus 1 io, ready := s.ready - 1 }, ())
    else none
  | .sendfromq maxframes =>
    if s.fromq.isNone then some ({ s with fromq := some ⟨0, maxframes⟩ }, ()) else none
  | .sendfromqTurn mlen io stop =>
    match s.fromq with
    | none => none
    | some l =>
      let r := sendfromqTurn conf s.bus l mlen io stop
      some ({ s with bus := r.1, fromq := r.2 }, ())
  | .sendpendctl clkAvail ok =>
    if s.fromq.isNone then
      if txctlok s.bus ∧ s.bus.ctrlFrameStat ∧ clkAvail then
        some ({ s with bus := dhdsdioSendpendctl s.bus ok }, ())
      else some (s, ())
    else none
  | .txctl ok =>
    if s.fromq.isNone then
      if conf.txctlTmoFix ∧ ¬ txctlok s.bus then
        some ({ s with waitCredit := s.waitCredit + 1 }, ())
      else some (enterTxctl s ok, ())
    else none
  | .txctlResume ok =>
    if s.fromq.isNone ∧ 0 < s.waitCredit then
      some (enterTxctl { s with waitCredit := s.waitCredit - 1 } ok, ())
    else none
  | .txctlDone =>
    -- sent or not, the flag ends as FALSE
    if s.fromq.isNone ∧ 0 < s.waitSent then
      some ({ s with bus := { s.bus with ctrlFrameStat := false }, waitSent := s.waitSent - 1 }, ())
    else none
  | .rx txmax =>
    if s.fromq.isNone then some ({ s with bus := rxWindow s.bus txmax }, ()) else none

/-- `dhd_bus_stop` -/
def init : State where
  bus := { txSeq := 0, txMax := 4, ctrlFrameStat := false, ctrlFrameSeq := 0, writes := [] }
  ready := 0
  fromq := none
  waitCredit := 0
  waitSent := 0

/-- A batch of data meets the condition: the offset does not widen the window, and the packets
are not dropped in the place of a write. -/
def soundData (conf : Conf) (io : Io) : Bool := 0 ≤ conf.txMaxOffset ∧ ¬ drops conf io

/-- The condition on a step.  A send of `dhd_bus_txdata` finds its window test still true. -/
def sound (conf : Conf) (s : State) : Act → Bool
  | .txdataSend io => dataok conf s.bus ∧ soundData conf io
  | .sendfromqTurn _ io _ => soundData conf io
  | _ => true

/-! ## Credits -/

/-- The frames of the writes that succeeded -/
def sent (ws : List Write) : List (BitVec 8) := ws.flatMap fun wr => if wr.ok then wr.seqs else []

/-- A write keeps to the window: no frame without a credit, no more frames than credits, and data
frames leave a credit. -/
def WithinWindow (wr : Write) : Prop :=
  wr.window ≠ 0 ∧ wr.seqs.length ≤ wr.window ∧ (wr.chan = .data → wr.seqs.length < wr.window)

/-- After the writes `pre`, frame `i` of `wr` has the number of frames sent before it. -/
def Numbered (pre : List Write) (wr : Write) : Prop :=
  ∀ i (h : i < wr.seqs.length), wr.seqs[i] = BitVec.ofNat 8 ((sent pre).length + i)

structure Respected (b : Bus) : Prop where
  window : b.window ≤ 0x70
  within : ∀ wr ∈ b.writes, WithinWindow wr
  numbered : ∀ pre wr post, b.writes = pre ++ wr :: post → Numbered pre wr

/-- `tx_seq` counts the frames sent. -/
def Counted (b : Bus) : Prop := b.txSeq = BitVec.ofNat 8 (sent b.writes).length

structure Inv (b : Bus) : Prop extends Respected b where
  counted : Counted b

theorem sent_append (ws ws' : List Write) : sent (ws ++ ws') = sent ws ++ sent ws' := by
  simp [sent]

theorem bit7_clear : ∀ w : BitVec 8, w &&& 0x80#8 = 0#8 ↔ w.toNat < 0x80 := by
  decide

theorem inOrder_iff (b : Bus) : b.inOrder = true ↔ b.window < 0x80 := by
  unfold Bus.inOrder Bus.window offered
  rw [decide_eq_true_iff]
  exact bit7_clear _

variable {conf : Conf} {b : Bus}

theorem one_lt_window (ho : 0 ≤ conf.txMaxOffset) (h : dataok conf b = true) : 1 < b.window := by
  unfold dataok at h
  rw [decide_eq_true_iff] at h
  omega

theorem window_pos (h : txctlok b = true) : b.window ≠ 0 := by
  unfold txctlok at h
  rw [decide_eq_true_iff] at h
  exact h.1

/-- Within the window, `DATABUFCNT` does not wrap. -/
theorem databufcnt_lt_window (ho : 0 ≤ conf.txMaxOffset) (h : dataok conf b = true) :
    databufcnt conf b < b.window := by
  unfold dataok at h
  rw [decide_eq_true_iff, inOrder_iff] at h
  obtain ⟨h1, h2⟩ := h
  unfold databufcnt
  rw [BitVec.toNat_ofInt]
  omega

theorem numPkt_lt_window (ho : 0 ≤ conf.txMaxOffset) (h : dataok conf b = true) (mlen : Nat) :
    numPkt conf b mlen < b.window := by
  have h1 := one_lt_window ho h
  have h2 := databufcnt_lt_window ho h
  unfold numPkt
  split <;> omega

/-! ## One write -/

theorem Inv.congr {b' : Bus} (hi : Inv b) (h1 : b'.txSeq = b.txSeq) (h2 : b'.txMax = b.txMax)
    (h3 : b'.writes = b.writes) : Inv b' := by
  have hw : b'.window = b.window := by
    unfold Bus.window
    rw [h1, h2]
  refine ⟨⟨?_, ?_, ?_⟩, ?_⟩
  · rw [hw]
    exact hi.window
  · rw [h3]
    exact hi.within
  · rw [h3]
    exact hi.numbered
  · unfold Counted
    rw [h1, h3]
    exact hi.counted

/-- What comes after `l` is in `l`, or is the new one. -/
theorem append_singleton_eq {α : Type*} {l pre post : List α} {x y : α}
    (h : l ++ [x] = pre ++ y :: post) : (∃ post', l = pre ++ y :: post') ∨ (pre = l ∧ y = x) := by
  rcases List.eq_nil_or_concat post with rfl | ⟨post', z, rfl⟩
  · obtain ⟨h1, h2⟩ := List.append_inj' h rfl
    cases h2
    exact Or.inr ⟨h1.symm, rfl⟩
  · refine Or.inl ⟨post', ?_⟩
    have h' : l ++ [x] = (pre ++ y :: post') ++ [z] := by
      rw [h]
      simp
    exact (List.append_inj' h' rfl).1

/-- **One write.**  A batch of the next `n` numbers that fits the window. -/
theorem sendBuf_inv (hi : Inv b) (chan : Chan) (n : Nat) (ok : Bool) (h0 : b.window ≠ 0)
    (hn : n ≤ b.window) (hd : chan = .data → n < b.window) :
    Inv (sendBuf b chan (numbers b.txSeq n) ok) := by
  refine ⟨⟨?_, ?_, ?_⟩, ?_⟩
  · have hw := hi.window
    unfold Bus.window sendBuf
    cases ok with
    | false => exact hw
    | true =>
      simp only [↓reduceIte, length_numbers]
      rw [offered_advance _ _ _ hn]
      exact Nat.le_trans (Nat.sub_le _ _) hw
  · intro wr hwr
    rcases List.mem_append.mp hwr with hwr | hwr
    · exact hi.within wr hwr
    · cases List.mem_singleton.mp hwr
      refine ⟨h0, ?_, ?_⟩
      · rw [length_numbers]
        exact hn
      · intro hc
        rw [length_numbers]
        exact hd hc
  · intro pre wr post h
    rcases append_singleton_eq h with ⟨post', h'⟩ | ⟨rfl, rfl⟩
    · exact hi.numbered pre wr post' h'
    · intro i hlt
      have hc : b.txSeq = BitVec.ofNat 8 (sent b.writes).length := hi.counted
      simp only [hc]
      exact getElem_numbers_ofNat _ _ _ _
  · unfold Counted sendBuf
    rw [sent_append, List.length_append]
    cases ok with
    | false => exact hi.counted
    | true =>
      have hc : b.txSeq = BitVec.ofNat 8 (sent b.writes).length := hi.counted
      simp only [↓reduceIte, sent, List.flatMap_cons, List.flatMap_nil, List.append_nil]
      rw [BitVec.ofNat_add, hc]
      rfl

theorem txpkt_inv (hi : Inv b) (n : Nat) (io : Io) (hdrop : drops conf io = false)
    (hn : n < b.window) : Inv (dhdsdioTxpkt conf b n io) := by
  unfold dhdsdioTxpkt
  split
  · rw [hdrop]
    exact sendBuf_inv hi .data n io.ok (by omega) (by omega) fun _ => hn
  · exact hi

theorem ctrl_inv (hi : Inv b) (ok : Bool) (h : txctlok b = true) :
    Inv (sendBuf b .control [b.txSeq] ok) := by
  have h0 := window_pos h
  rw [← numbers_one]
  exact sendBuf_inv hi .control 1 ok h0 (by omega) nofun

theorem rxWindow_inv (hi : Inv b) (txmax : BitVec 8) : Inv (rxWindow b txmax) := by
  refine ⟨⟨?_, hi.within, hi.numbered⟩, hi.counted⟩
  unfold Bus.window rxWindow
  dsimp only
  split
  · exact hi.window
  · omega

theorem soundData_iff (conf : Conf) (io : Io) :
    soundData conf io = true ↔ 0 ≤ conf.txMaxOffset ∧ drops conf io = false := by
  unfold soundData
  rw [decide_eq_true_iff, Bool.not_eq_true]

theorem sendfromqTurn_inv (hi : Inv b) (l : Loop) (mlen : Nat) (io : Io) (stop : Bool)
    (hs : soundData conf io = true) :
    Inv (sendfromqTurn conf b l mlen io stop).1 := by
  obtain ⟨ho, hdrop⟩ := (soundData_iff conf io).mp hs
  unfold sendfromqTurn
  split
  · next h =>
    split
    · exact hi
    · exact txpkt_inv hi _ io hdrop (numPkt_lt_window ho h.2 mlen)
  · exact hi

theorem sendpendctl_inv (hi : Inv b) (ok : Bool) (h : txctlok b = true) :
    Inv (dhdsdioSendpendctl b ok) := by
  have hb : Inv { b with ctrlFrameSeq := b.txSeq } := hi.congr rfl rfl rfl
  exact (ctrl_inv hb ok h).congr rfl rfl rfl

theorem txctl_inv (hi : Inv b) (ok : Bool) : Inv (dhdBusTxctl b ok).1 := by
  unfold dhdBusTxctl
  split
  · next h => exact (ctrl_inv hi ok h).congr rfl rfl rfl
  · exact hi.congr rfl rfl rfl

theorem inv_init : Inv init.bus where
  window := by decide
  within := nofun
  numbered := by
    intro pre wr post h
    cases pre <;> cases h
  counted := rfl

theorem step_inv {s s' : State} {e : Act} {u : Unit} (hi : Inv s.bus) (hc : sound conf s e = true)
    (h : step conf s e = some (s', u)) : Inv s'.bus := by
  cases e with
  | txdataTest busy =>
    dsimp only [step] at h
    split at h <;> cases h <;> exact hi
  | txdataSend io =>
    unfold sound at hc
    rw [decide_eq_true_iff] at hc
    obtain ⟨hok, hs⟩ := hc
    obtain ⟨ho, hdrop⟩ := (soundData_iff conf io).mp hs
    dsimp only [step] at h
    split at h
    · cases h
      exact txpkt_inv hi 1 io hdrop (one_lt_window ho hok)
    · cases h
  | sendfromq maxframes =>
    dsimp only [step] at h
    split at h
    · cases h
      exact hi
    · cases h
  | sendfromqTurn mlen io stop =>
    dsimp only [step] at h
    split at h
    · cases h
    · next l _ =>
      cases h
      exact sendfromqTurn_inv hi l mlen io stop hc
  | sendpendctl clkAvail ok =>
    dsimp only [step] at h
    split at h
    · split at h
      · next hg =>
        cases h
        exact sendpendctl_inv hi ok hg.1
      · cases h
        exact hi
    · cases h
  | txctl ok =>
    dsimp only [step] at h
    split at h
    · split at h
      · cases h
        exact hi
      · cases h
        exact txctl_inv hi ok
    · cases h
  | txctlResume ok =>
    dsimp only [step] at h
    split at h
    · cases h
      exact txctl_inv hi ok
    · cases h
  | txctlDone =>
    dsimp only [step] at h
    split at h
    · cases h
      exact hi.congr rfl rfl rfl
    · cases h
  | rx txmax =>
    dsimp only [step] at h
    split at h
    · cases h
      exact rxWindow_inv hi txmax
    · cases h

/-! ## Top theorem -/

/-- **Transmit credits are respected** in every run in which the test of `dhd_bus_txdata` still
holds when it sends, the offset is not negative and no packet is dropped in place of a write. -/
theorem sdio_tx_credits (conf : Conf) (es : List Act) (s : State) (tr : List (Act × Unit))
    (hm : meets (step conf) (sound conf) init es = true)
    (h : runs (step conf) init es = some (s, tr)) : Respected s.bus := by
  have hinv : Inv s.bus := runs_inv_of_meets (step conf) (sound conf) (fun s _ => Inv s.bus)
    (fun _ _ _ _ _ hi hc hs => step_inv hi hc hs) init s es tr inv_init hm h
  exact hinv.toRespected

/-- Packets are sent at once, one in a write. -/
def direct : Conf where
  deferredTx := false
  txglomEnable := false
  txglomsize := 36
  txMaxOffset := 0
  txctlTmoFix := false
  dataDropMode := .noDataDrop

def goes : Io := { prepared := true, totalLen := 100, ok := true }

/-- A glom of three packets, a control frame, and a control frame that waits for the window. -/
def glom : List Act :=
  [.sendfromq 20, .sendfromqTurn 5 goes false, .sendfromqTurn 2 goes false, .txctl true,
    .txctl true, .rx 6, .sendpendctl true true, .txctlDone]

theorem sdio_tx_credits_glom :
    ∃ s tr, runs (step { direct with txglomEnable := true }) init glom = some (s, tr) ∧
      s.bus.writes.map Write.seqs = [[0, 1, 2], [3], [4]] ∧ Respected s.bus := by
  obtain ⟨s, tr, h⟩ :
    ∃ s tr, runs (step { direct with txglomEnable := true }) init glom = some (s, tr) :=
    ⟨_, _, rfl⟩
  refine ⟨s, tr, h, ?_, sdio_tx_credits _ glom s tr (by decide +kernel) h⟩
  cases h
  rfl

/-- With two credits left three contexts pass the test, and then each sends. -/
def stale : List Act :=
  [.rx 2, .txdataTest false, .txdataTest false, .txdataTest false,
    .txdataSend goes, .txdataSend goes, .txdataSend goes]

/-- The second frame takes the last credit, the third has none, and the window ends at 255. -/
theorem sdio_tx_credits_fails :
    ∃ s tr, runs (step direct) init stale = some (s, tr) ∧
      s.bus.writes.map Write.window = [2, 1, 0] ∧ s.bus.window = 255 ∧ ¬ Respected s.bus := by
  obtain ⟨s, tr, h⟩ : ∃ s tr, runs (step direct) init stale = some (s, tr) := ⟨_, _, rfl⟩
  refine ⟨s, tr, h, ?_, ?_, ?_⟩
  · cases h
    rfl
  · cases h
    rfl
  · intro hr
    have hw := hr.window
    cases h
    revert hw
    decide +kernel

end Bcmdhd.Sdio.TxCredits
