import NemeaSupervisor.ChunkLoop
import NemeaSupervisor.NumberSelection
import NemeaSupervisor.ServiceExchange

/-!
# Sending and receiving over a service connection

The loops of `service_recv_data` and `service_send_data` with their variables, the
arguments of every call of `recv` and `send`, and the bytes at `*data`. Both
transfer in chunks and share one count of calls that would have blocked; the closed
socket that ends a receive has no counterpart in the other.
-/

namespace NemeaSupervisor

open ChunkLoop (Completes movedBy)

/-! ## The loops -/

/-- What a `uint32_t` keeps of a result. -/
def cUInt32 (v : Int) : Nat := (v % 4294967296).toNat

/-- The bytes at `*data`, by their distance from it. -/
abbrev DataBytes := Int → UInt8

def DataBytes.store (data : DataBytes) (pos : Int) (bytes : List UInt8) : DataBytes := fun i =>
  if pos ≤ i then bytes.getD (i - pos).toNat (data i) else data i

def DataBytes.load (data : DataBytes) (pos : Int) (n : Nat) : List UInt8 :=
  (List.range n).map fun i : Nat => data (pos + (i : Int))

/-- The variables of the loop. `total` is `total_receved` or `total_sent`, `asked` lists where the
calls start and for how much they ask, the newest first, and `ret` is what the function has
returned. -/
structure TransferCall where
  numOfTimeouts : Nat
  total : Int
  asked : List (Int × Nat)
  ret : Option Int
  deriving DecidableEq, Repr

namespace TransferCall

/-- The test of the `while`, in which the `int` becomes unsigned. -/
def test (size : Nat) (c : TransferCall) : TransferCall :=
  if cUInt32 c.total < size then c else { c with ret := some 0 }

def start (size : Nat) : TransferCall := test size ⟨0, 0, [], none⟩

/-- The length that the next call asks for. -/
def left (size : Nat) (c : TransferCall) : Nat := cUInt32 (size - c.total)

def ask (size : Nat) (c : TransferCall) : TransferCall :=
  { c with asked := (c.total, c.left size) :: c.asked }

/-- What both loops do with what the call has returned. -/
def returned (size : Nat) (c : TransferCall) : SendResult → TransferCall
  | .sent n => test size { c with total := cInt (c.total + cInt n) }
  | .wouldBlock =>
    if c.numOfTimeouts + 1 > serviceWaitMaxTry then
      { c with numOfTimeouts := c.numOfTimeouts + 1, ret := some (-1) }
    else test size { c with numOfTimeouts := c.numOfTimeouts + 1 }
  | .failed => { c with ret := some (-1) }

end TransferCall

/-- `service_recv_data` between two calls of `recv`. -/
structure RecvCall extends TransferCall where
  data : DataBytes

/-- `service_send_data` between two calls of `send`, with the bytes that are sent. -/
structure SendCall extends TransferCall where
  sent : List UInt8
  deriving DecidableEq, Repr

def RecvCall.start (size : Nat) (data : DataBytes) : RecvCall := ⟨.start size, data⟩

/-- One turn of the loop of `service_recv_data`. -/
def recvStep (size : Nat) (c : RecvCall) (r : RecvResult) : RecvCall :=
  match c.ret with
  | some _ => c
  | none =>
    let call := c.toTransferCall.ask size
    match r with
    | .received [] => ⟨{ call with ret := some (-1) }, c.data⟩
    | .received bytes => ⟨call.returned size (.sent bytes.length), c.data.store c.total bytes⟩
    | .wouldBlock => ⟨call.returned size .wouldBlock, c.data⟩
    | .failed => ⟨call.returned size .failed, c.data⟩

def SendCall.start (size : Nat) : SendCall := ⟨.start size, []⟩

/-- One turn of the loop of `service_send_data`. -/
def sendStep (size : Nat) (data : DataBytes) (c : SendCall) (r : SendResult) : SendCall :=
  match c.ret with
  | some _ => c
  | none =>
    let call := c.toTransferCall.ask size
    match r with
    | .sent n => ⟨call.returned size (.sent n), c.sent ++ data.load c.total n⟩
    | .wouldBlock => ⟨call.returned size .wouldBlock, c.sent⟩
    | .failed => ⟨call.returned size .failed, c.sent⟩

/-! ## The socket -/

/-- `recv` stores no more than it has been asked for. -/
def RecvAnswers (size : Nat) (c : RecvCall) (r : RecvResult) : Prop :=
  c.ret = none → ∀ bytes, r = .received bytes → bytes.length ≤ c.left size

/-- `send` takes at least one byte, and no more than it has been asked for. -/
def SendAnswers (size : Nat) (c : TransferCall) (r : SendResult) : Prop :=
  c.ret = none → ∀ n, r = .sent n → 1 ≤ n ∧ n ≤ c.left size

instance (size : Nat) (c : RecvCall) (r : RecvResult) : Decidable (RecvAnswers size c r) :=
  match r with
  | .received bytes => decidable_of_iff (c.ret = none → bytes.length ≤ c.left size)
      (by simp [RecvAnswers])
  | .wouldBlock => .isTrue fun _ _ h => by cases h
  | .failed => .isTrue fun _ _ h => by cases h

instance (size : Nat) (c : TransferCall) (r : SendResult) : Decidable (SendAnswers size c r) :=
  match r with
  | .sent n => decidable_of_iff (c.ret = none → 1 ≤ n ∧ n ≤ c.left size)
      (by simp [SendAnswers])
  | .wouldBlock => .isTrue fun _ _ h => by cases h
  | .failed => .isTrue fun _ _ h => by cases h

def RecvResult.bytes : RecvResult → List UInt8
  | .received bytes => bytes
  | _ => []

/-- What a result is for the loop that both functions have in common. -/
def RecvResult.common : RecvResult → SendResult
  | .received [] => .failed
  | .received bytes => .sent bytes.length
  | .wouldBlock => .wouldBlock
  | .failed => .failed

/-- What a result is for the transfer. -/
def SendResult.outcome : SendResult → ChunkLoop.Outcome
  | .sent n => .moved n
  | .wouldBlock => .again
  | .failed => .stop

def RecvResult.outcome (r : RecvResult) : ChunkLoop.Outcome := r.common.outcome

/-- A call transfers exactly: it ends, it asks for what is left at every time, and it returns 0 just
when the chunks come to the size in time. -/
structure TransfersExactly (size : Nat) (os : List ChunkLoop.Outcome) (c : TransferCall) :
    Prop where
  ends : size + serviceWaitMaxTry ≤ os.length → c.ret ≠ none
  returns : ∀ ret ∈ c.ret, ret = 0 ∨ ret = -1
  asks : ∀ k a, c.asked.reverse[k]? = some a →
    a = ((movedBy (os.take k) : Int), size - movedBy (os.take k))
  success : c.ret = some 0 ↔
    ∃ before, before <+: os ∧ Completes size serviceWaitMaxTry before

/-! ## The common loop -/

/-- One turn of either loop. -/
def TransferCall.step (size : Nat) (c : TransferCall) (r : SendResult) : TransferCall :=
  match c.ret with
  | some _ => c
  | none => (c.ask size).returned size r

theorem recvStep_common (size : Nat) (c : RecvCall) (r : RecvResult) :
    (recvStep size c r).toTransferCall = c.toTransferCall.step size r.common := by
  rw [recvStep, TransferCall.step]
  split
  · rfl
  · cases r with
    | received bytes =>
      cases bytes with
      | nil => rfl
      | cons byte bytes => rfl
    | wouldBlock => rfl
    | failed => rfl

theorem sendStep_common (size : Nat) (data : DataBytes) (c : SendCall) (r : SendResult) :
    (sendStep size data c r).toTransferCall = c.toTransferCall.step size r := by
  rw [sendStep, TransferCall.step]
  split
  · rfl
  · cases r with
    | sent n => rfl
    | wouldBlock => rfl
    | failed => rfl

/-- The variables of the loop follow the transfer. -/
structure Follows (size : Nat) (c : TransferCall) (s : ChunkLoop.State) : Prop where
  total : c.total = s.moved
  timeouts : c.numOfTimeouts = s.tries
  ret : c.ret = s.result.map fun ok => if ok then 0 else -1
  le : s.moved ≤ size

section common

variable {size : Nat} {c : TransferCall} {s : ChunkLoop.State} {r : SendResult}

theorem cUInt32_of_nonneg {v : Int} (hlow : 0 ≤ v) (hhigh : v ≤ intMax) :
    cUInt32 v = v.toNat := by
  unfold intMax at hhigh
  rw [cUInt32, Int.emod_eq_of_lt hlow (by omega)]

theorem Follows.left (h : Follows size c s) (hsize : (size : Int) ≤ intMax) :
    c.left size = size - s.moved := by
  have hle := h.le
  rw [TransferCall.left, h.total, cUInt32_of_nonneg (by omega) (by omega)]
  omega

theorem Follows.ret_none (h : Follows size c s) : c.ret = none ↔ s.result = none := by
  rw [h.ret, Option.map_eq_none_iff]

theorem Follows.ret_zero (h : Follows size c s) :
    c.ret = some 0 ↔ s.result = some true := by
  rw [h.ret]
  cases s.result with
  | none => simp
  | some ok => cases ok <;> simp

/-- The test of an `int` is that of the number of bytes. -/
theorem follows_test (hsize : (size : Int) ≤ intMax) (htotal : c.total = s.moved)
    (htimeouts : c.numOfTimeouts = s.tries) (hret : c.ret = none) (hresult : s.result = none)
    (hle : s.moved ≤ size) : Follows size (c.test size) (ChunkLoop.test size s) := by
  have hunsigned : cUInt32 c.total = s.moved := by
    rw [htotal, cUInt32_of_nonneg (by omega) (by omega)]
    omega
  rw [TransferCall.test, ChunkLoop.test, hunsigned]
  split
  · exact ⟨htotal, htimeouts, by rw [hret, hresult]; rfl, hle⟩
  · exact ⟨htotal, htimeouts, rfl, hle⟩

theorem follows_start (hsize : (size : Int) ≤ intMax) :
    Follows size (.start size) (ChunkLoop.start size) :=
  follows_test hsize rfl rfl rfl rfl (Nat.zero_le _)

theorem Follows.moves (h : Follows size c s) (hsize : (size : Int) ≤ intMax)
    (hanswers : SendAnswers size c r) : ChunkLoop.Moves size s r.outcome := by
  intro hresult n hn
  cases r with
  | sent n' =>
    obtain rfl := ChunkLoop.Outcome.moved.inj hn
    obtain ⟨hpos, hle⟩ := hanswers (h.ret_none.mpr hresult) _ rfl
    rw [h.left hsize] at hle
    exact ⟨hpos, by omega⟩
  | wouldBlock => cases hn
  | failed => cases hn

/-- A turn of the loop is a call of the transfer. -/
theorem Follows.step (h : Follows size c s) (hsize : (size : Int) ≤ intMax)
    (hanswers : SendAnswers size c r) :
    Follows size (c.step size r) (ChunkLoop.step size serviceWaitMaxTry s r.outcome) := by
  have hmoves := h.moves hsize hanswers
  cases hresult : s.result with
  | some ok =>
    have hret := h.ret
    rw [hresult] at hret
    rw [ChunkLoop.step_ended hresult, TransferCall.step, hret]
    exact h
  | none =>
    have hret : c.ret = none := h.ret_none.mpr hresult
    simp only [TransferCall.step, hret, ChunkLoop.step, hresult]
    cases r with
    | failed => exact ⟨h.total, h.timeouts, rfl, h.le⟩
    | wouldBlock =>
      simp only [TransferCall.returned, SendResult.outcome, TransferCall.ask, h.timeouts]
      split
      · exact ⟨h.total, rfl, rfl, h.le⟩
      · exact follows_test hsize h.total rfl hret rfl h.le
    | sent n =>
      obtain ⟨hpos, hfits⟩ := hmoves hresult n rfl
      have hint : cInt (c.total + cInt n) = ((s.moved + n : Nat) : Int) := by
        unfold intMax at hsize
        have hn : cInt n = n := Int.bmod_eq_of_le (by omega) (by omega)
        rw [hn, h.total]
        exact Int.bmod_eq_of_le (by omega) (by omega)
      exact follows_test hsize hint h.timeouts hret rfl hfits

theorem Follows.run (h : Follows size c s) (hsize : (size : Int) ≤ intMax) {rs : List SendResult}
    (hanswers : Run.Along (TransferCall.step size) (SendAnswers size) c rs) :
    Follows size (Run.run (TransferCall.step size) c rs)
      (Run.run (ChunkLoop.step size serviceWaitMaxTry) s (rs.map SendResult.outcome)) ∧
    Run.Along (ChunkLoop.step size serviceWaitMaxTry) (ChunkLoop.Moves size) s
      (rs.map SendResult.outcome) := by
  induction rs generalizing c s with
  | nil => exact ⟨h, trivial⟩
  | cons r rs ih =>
    obtain ⟨hfollows, halong⟩ := ih (h.step hsize hanswers.1) hanswers.2
    exact ⟨hfollows, h.moves hsize hanswers.1, halong⟩

/-- Where the calls start and for how much they ask, as long as the loop has gone on. -/
structure Asks (size : Nat) (os : List ChunkLoop.Outcome) (c : TransferCall) : Prop where
  count : c.ret = none → c.asked.length = os.length
  le : c.asked.length ≤ os.length
  asks : ∀ k a, c.asked.reverse[k]? = some a →
    a = ((movedBy (os.take k) : Int), size - movedBy (os.take k))

theorem test_asked (size : Nat) (c : TransferCall) : (c.test size).asked = c.asked := by
  rw [TransferCall.test]
  split <;> rfl

theorem returned_asked (size : Nat) (c : TransferCall) (r : SendResult) :
    (c.returned size r).asked = c.asked := by
  cases r with
  | sent n => exact test_asked size _
  | failed => rfl
  | wouldBlock =>
    rw [TransferCall.returned]
    split
    · rfl
    · exact test_asked size _

theorem asks_start (size : Nat) : Asks size [] (.start size) := by
  have hasked : (TransferCall.start size).asked = [] := test_asked size _
  refine ⟨fun _ => ?_, ?_, fun k a h => by simp [hasked] at h⟩
  · rw [hasked]
    rfl
  · rw [hasked]
    exact Nat.le_refl _

/-- The next call starts behind the bytes of the calls before it, and asks for the others. -/
theorem Asks.step {os : List ChunkLoop.Outcome} (h : Asks size os c) (o : ChunkLoop.Outcome)
    (hnext : c.ret = none → (c.total, c.left size) = ((movedBy os : Int), size - movedBy os)) :
    Asks size (os ++ [o]) (c.step size r) := by
  have hold : ∀ k a, c.asked.reverse[k]? = some a →
      a = ((movedBy ((os ++ [o]).take k) : Int), size - movedBy ((os ++ [o]).take k)) := by
    intro k a hk
    have hlt : k < c.asked.reverse.length := (List.getElem?_eq_some_iff.mp hk).1
    rw [List.length_reverse] at hlt
    have hle := h.le
    rw [List.take_append_of_le_length (by omega)]
    exact h.asks k a hk
  rw [TransferCall.step]
  split
  · next hret =>
    refine ⟨fun hnone => ?_, ?_, hold⟩
    · rw [hret] at hnone
      cases hnone
    · rw [List.length_append]
      exact Nat.le_add_right_of_le h.le
  · next hret =>
    have hasked : ((c.ask size).returned size r).asked = (c.total, c.left size) :: c.asked :=
      returned_asked size _ r
    have hlength := h.count hret
    refine ⟨fun _ => ?_, ?_, ?_⟩
    · rw [hasked, List.length_cons, hlength, List.length_append, List.length_singleton]
    · rw [hasked, List.length_cons, hlength, List.length_append, List.length_singleton]
    · intro k a hk
      rw [hasked, List.reverse_cons] at hk
      rcases Nat.lt_or_ge k c.asked.reverse.length with hlt | hge
      · rw [List.getElem?_append_left hlt] at hk
        exact hold k a hk
      · rw [List.getElem?_append_right hge] at hk
        have hlast : k - c.asked.reverse.length = 0 := by
          have := (List.getElem?_eq_some_iff.mp hk).1
          simpa using this
        rw [hlast, List.getElem?_cons_zero] at hk
        have hk' : k = os.length := by
          rw [List.length_reverse] at hge hlast
          omega
        rw [← Option.some.inj hk, hnext hret, hk', List.take_left]

/-- A loop that goes on has transferred all that the results have moved. -/
theorem Follows.moved {os : List ChunkLoop.Outcome} (h : Follows size c s)
    (hknown : ChunkLoop.Known size serviceWaitMaxTry os s) (hret : c.ret = none) :
    s.moved = movedBy os := by
  have hresult := h.ret_none.mp hret
  cases hknown with
  | on hmoved _ _ _ _ _ _ => exact hmoved
  | done _ _ _ hdone => exact absurd (hresult.symm.trans hdone) (by simp)
  | given _ _ _ hgiven => exact absurd (hresult.symm.trans hgiven) (by simp)

theorem run_asks (hsize : (size : Int) ≤ intMax) {rs : List SendResult}
    (hanswers : Run.Along (TransferCall.step size) (SendAnswers size) (.start size) rs) :
    Asks size (rs.map SendResult.outcome)
      (Run.run (TransferCall.step size) (.start size) rs) := by
  induction rs using List.reverseRecOn with
  | nil => exact asks_start size
  | append_singleton rs r ih =>
    obtain ⟨hrs, -⟩ := Run.along_append hanswers
    obtain ⟨hfollows, halong⟩ := (follows_start hsize).run hsize hrs
    rw [Run.run_concat, List.map_append]
    refine (ih hrs).step r.outcome fun hret => ?_
    have hmoved := hfollows.moved (ChunkLoop.known_run halong) hret
    rw [hfollows.total, hfollows.left hsize, hmoved]

/-- Either loop transfers exactly what its calls come to. -/
theorem transfersExactly (hsize : (size : Int) ≤ intMax) {rs : List SendResult}
    (hanswers : Run.Along (TransferCall.step size) (SendAnswers size) (.start size) rs) :
    TransfersExactly size (rs.map SendResult.outcome)
      (Run.run (TransferCall.step size) (.start size) rs) := by
  obtain ⟨hfollows, halong⟩ := (follows_start hsize).run hsize hanswers
  refine ⟨fun hlength hret => ?_, fun ret hret => ?_, (run_asks hsize hanswers).asks, ?_⟩
  · exact ChunkLoop.run_ends halong hlength (hfollows.ret_none.mp hret)
  · rw [hfollows.ret] at hret
    obtain ⟨ok, -, rfl⟩ := Option.map_eq_some_iff.mp hret
    cases ok
    · exact .inr rfl
    · exact .inl rfl
  · rw [← ChunkLoop.run_eq_true_iff halong, hfollows.ret_zero]

end common

/-! ## The bytes -/

theorem store_append (data : DataBytes) (xs ys : List UInt8) :
    data.store 0 (xs ++ ys) = (data.store 0 xs).store xs.length ys := by
  funext i
  simp only [DataBytes.store]
  by_cases hlow : 0 ≤ i
  · rw [if_pos hlow, if_pos hlow]
    split
    · next hge =>
      have hnat : (i - 0).toNat = xs.length + (i - xs.length).toNat := by omega
      have hbeyond : xs.getD (i - 0).toNat (data i) = data i := by
        rw [List.getD_eq_getElem?_getD, List.getElem?_eq_none (by omega), Option.getD_none]
      rw [hbeyond, hnat, List.getD_eq_getElem?_getD, List.getD_eq_getElem?_getD,
        List.getElem?_append_right (Nat.le_add_right _ _), Nat.add_sub_cancel_left]
    · next hlt =>
      rw [List.getD_eq_getElem?_getD, List.getD_eq_getElem?_getD,
        List.getElem?_append_left (by omega)]
  · rw [if_neg hlow, if_neg (by omega), if_neg hlow]

theorem store_nil (data : DataBytes) (pos : Int) : data.store pos [] = data := by
  funext i
  rw [DataBytes.store]
  split <;> rfl

theorem load_add (data : DataBytes) (m n : Nat) :
    data.load 0 (m + n) = data.load 0 m ++ data.load m n := by
  rw [DataBytes.load, List.range_add, List.map_append, List.map_map]
  refine congrArg _ (List.map_congr_left fun i _ => ?_)
  simp only [Function.comp_apply, Int.natCast_add, Int.zero_add]

theorem load_take {m n : Nat} (h : m ≤ n) (data : DataBytes) :
    (data.load 0 n).take m = data.load 0 m := by
  rw [DataBytes.load, ← List.map_take, List.take_range, Nat.min_eq_left h, DataBytes.load]

section bytes

variable {size : Nat} {data : DataBytes}

theorem recvStep_data (c : RecvCall) (r : RecvResult) (hret : c.ret = none) :
    (recvStep size c r).data = c.data.store c.total r.bytes := by
  simp only [recvStep, hret]
  cases r with
  | received bytes =>
    cases bytes with
    | nil => exact (store_nil c.data c.total).symm
    | cons byte bytes => rfl
  | wouldBlock => exact (store_nil c.data c.total).symm
  | failed => exact (store_nil c.data c.total).symm

theorem outcome_size (r : RecvResult) : r.outcome.size = r.bytes.length := by
  cases r with
  | received bytes => cases bytes <;> rfl
  | wouldBlock => rfl
  | failed => rfl

theorem movedBy_received (results : List RecvResult) :
    movedBy (results.map RecvResult.outcome) = (results.flatMap RecvResult.bytes).length := by
  rw [movedBy, List.length_flatMap, List.map_map]
  exact congrArg _ (List.map_congr_left fun r _ => outcome_size r)

theorem run_recv_common (c : RecvCall) (results : List RecvResult) :
    (Run.run (recvStep size) c results).toTransferCall =
      Run.run (TransferCall.step size) c.toTransferCall (results.map RecvResult.common) := by
  induction results generalizing c with
  | nil => rfl
  | cons r results ih => rw [Run.run_cons, ih, recvStep_common, List.map_cons, Run.run_cons]

theorem RecvAnswers.common {c : RecvCall} {r : RecvResult} (h : RecvAnswers size c r) :
    SendAnswers size c.toTransferCall r.common := by
  intro hret n hn
  cases r with
  | received bytes =>
    cases bytes with
    | nil => cases hn
    | cons byte bytes =>
      obtain rfl := SendResult.sent.inj hn
      exact ⟨Nat.succ_pos _, h hret _ rfl⟩
  | wouldBlock => cases hn
  | failed => cases hn

theorem along_recv_common {c : RecvCall} {results : List RecvResult}
    (h : Run.Along (recvStep size) (RecvAnswers size) c results) :
    Run.Along (TransferCall.step size) (SendAnswers size) c.toTransferCall
      (results.map RecvResult.common) := by
  induction results generalizing c with
  | nil => trivial
  | cons r results ih => exact ⟨h.1.common, recvStep_common size c r ▸ ih h.2⟩

theorem run_send_common (c : SendCall) (results : List SendResult) :
    (Run.run (sendStep size data) c results).toTransferCall =
      Run.run (TransferCall.step size) c.toTransferCall results := by
  induction results generalizing c with
  | nil => rfl
  | cons r results ih => rw [Run.run_cons, ih, sendStep_common, Run.run_cons]

/-- What is at `*data` are the chunks before the end of the loop, in their order. -/
structure ChunksStored (size : Nat) (data : DataBytes) (results before : List RecvResult)
    (c : RecvCall) : Prop where
  within : before <+: results
  data : c.data = data.store 0 (before.flatMap RecvResult.bytes)
  all : c.ret = none → before = results
  completes : c.ret = some 0 → Completes size serviceWaitMaxTry (before.map RecvResult.outcome)

theorem stored_start (size : Nat) (data : DataBytes) :
    ChunksStored size data [] [] (.start size data) := by
  refine ⟨List.prefix_rfl, (store_nil data 0).symm, fun _ => rfl, fun hret => ?_⟩
  have hzero : ¬ 0 < size := by
    intro hpos
    have hon : (RecvCall.start size data).ret = none := by
      simp only [RecvCall.start, TransferCall.start, TransferCall.test]
      rw [if_pos (show cUInt32 0 < size from hpos)]
    rw [hon] at hret
    cases hret
  exact ⟨(Nat.eq_zero_of_not_pos hzero).symm, List.not_mem_nil, Nat.zero_le _⟩

/-- A chunk goes behind the chunks before it. -/
theorem ChunksStored.step {results before : List RecvResult} {c : RecvCall} {s : ChunkLoop.State}
    (h : ChunksStored size data results before c) (hsize : (size : Int) ≤ intMax)
    (hfollows : Follows size c.toTransferCall s)
    (hknown : ChunkLoop.Known size serviceWaitMaxTry (results.map RecvResult.outcome) s)
    {r : RecvResult} (hr : RecvAnswers size c r) :
    ∃ before, ChunksStored size data (results ++ [r]) before (recvStep size c r) := by
  cases hret : c.ret with
  | some ret =>
    have hended : recvStep size c r = c := by simp only [recvStep, hret]
    rw [hended]
    refine ⟨before, h.within.trans (List.prefix_append _ _), h.data, fun hnone => ?_,
      h.completes⟩
    rw [hret] at hnone
    cases hnone
  | none =>
    obtain rfl := h.all hret
    have htotal : c.total = (before.flatMap RecvResult.bytes).length := by
      rw [hfollows.total, hfollows.moved hknown hret, movedBy_received]
    refine ⟨before ++ [r], List.prefix_rfl, ?_, fun _ => rfl, fun hzero => ?_⟩
    · rw [recvStep_data c r hret, h.data, htotal, ← store_append, List.flatMap_append,
        List.flatMap_singleton]
    · have hanswers := hr.common
      have hnext := hfollows.step hsize hanswers
      rw [← recvStep_common] at hnext
      have hstep := hknown.step_on (hfollows.ret_none.mp hret) (hfollows.moves hsize hanswers)
      rw [List.map_append]
      exact hstep.2 (hnext.ret_zero.mp hzero)

theorem run_stored (hsize : (size : Int) ≤ intMax) {results : List RecvResult}
    (h : Run.Along (recvStep size) (RecvAnswers size) (.start size data) results) :
    ∃ before, ChunksStored size data results before
      (Run.run (recvStep size) (.start size data) results) := by
  induction results using List.reverseRecOn with
  | nil => exact ⟨[], stored_start size data⟩
  | append_singleton results r ih =>
    obtain ⟨hresults, hr⟩ := Run.along_append h
    obtain ⟨before, hstored⟩ := ih hresults
    obtain ⟨hfollows, halong⟩ := (follows_start hsize).run hsize (along_recv_common hresults)
    rw [List.map_map] at halong hfollows
    rw [Run.run_concat]
    refine hstored.step hsize ?_ (ChunkLoop.known_run halong) hr.1
    rw [run_recv_common]
    exact hfollows

theorem along_send_common {c : SendCall} {results : List SendResult}
    (h : Run.Along (sendStep size data) (fun c r => SendAnswers size c.toTransferCall r) c
      results) :
    Run.Along (TransferCall.step size) (SendAnswers size) c.toTransferCall results := by
  induction results generalizing c with
  | nil => trivial
  | cons r results ih => exact ⟨h.1, sendStep_common size data c r ▸ ih h.2⟩

theorem sendStep_sent (c : SendCall) (r : SendResult) (hret : c.ret = none) :
    (sendStep size data c r).sent = c.sent ++ data.load c.total r.outcome.size := by
  simp only [sendStep, hret]
  cases r with
  | sent n => rfl
  | wouldBlock => exact (List.append_nil _).symm
  | failed => exact (List.append_nil _).symm

/-- What has been sent is the beginning of the data. -/
theorem run_sent (hsize : (size : Int) ≤ intMax) {results : List SendResult}
    (h : Run.Along (sendStep size data) (fun c r => SendAnswers size c.toTransferCall r)
      (.start size) results) :
    (Run.run (sendStep size data) (.start size) results).sent =
      data.load 0 (Run.run (ChunkLoop.step size serviceWaitMaxTry) (ChunkLoop.start size)
        (results.map SendResult.outcome)).moved := by
  induction results using List.reverseRecOn with
  | nil =>
    have hzero : (ChunkLoop.start size).moved = 0 := ChunkLoop.test_moved size _
    rw [List.map_nil, Run.run_nil, Run.run_nil, hzero]
    rfl
  | append_singleton results r ih =>
    obtain ⟨hresults, -⟩ := Run.along_append h
    obtain ⟨hfollows, -⟩ := (follows_start hsize).run hsize (along_send_common hresults)
    have hcommon : (Run.run (sendStep size data) (.start size) results).toTransferCall =
        Run.run (TransferCall.step size) (.start size) results := run_send_common _ results
    rw [← hcommon] at hfollows
    rw [Run.run_concat, List.map_append, List.map_singleton, Run.run_concat]
    cases hret : (Run.run (sendStep size data) (.start size) results).ret with
    | some ret =>
      obtain ⟨ok, hresult, -⟩ := Option.map_eq_some_iff.mp (hfollows.ret.symm.trans hret)
      rw [ChunkLoop.step_ended hresult]
      simp only [sendStep, hret]
      exact ih hresults
    | none =>
      rw [ChunkLoop.step_moved (hfollows.ret_none.mp hret), sendStep_sent _ r hret,
        ih hresults, hfollows.total, load_add]

/-- A receive and a send of up to `INT_MAX` bytes transfer exactly, with the chunks stored, or sent,
one behind the other when they succeed. -/
theorem service_transfers_exact (size : Nat) (hsize : (size : Int) ≤ intMax)
    (data : DataBytes) :
    (∀ results, Run.Along (recvStep size) (RecvAnswers size) (.start size data) results →
      let c := Run.run (recvStep size) (.start size data) results
      TransfersExactly size (results.map RecvResult.outcome) c.toTransferCall ∧
        (c.ret = some 0 → ∃ before, before <+: results ∧
          (before.flatMap RecvResult.bytes).length = size ∧
          c.data = data.store 0 (before.flatMap RecvResult.bytes))) ∧
    ∀ results, Run.Along (sendStep size data) (fun c r => SendAnswers size c.toTransferCall r)
        (.start size) results →
      let c := Run.run (sendStep size data) (.start size) results
      TransfersExactly size (results.map SendResult.outcome) c.toTransferCall ∧
        (c.ret = some 0 → c.sent = data.load 0 size) := by
  refine ⟨fun results h => ⟨?_, fun hzero => ?_⟩, fun results h => ⟨?_, fun hzero => ?_⟩⟩
  · have hexact := transfersExactly hsize (along_recv_common h)
    rw [List.map_map] at hexact
    rw [run_recv_common]
    exact hexact
  · obtain ⟨before, hstored⟩ := run_stored hsize h
    refine ⟨before, hstored.within, ?_, hstored.data⟩
    rw [← movedBy_received, (hstored.completes hzero).all]
  · have hexact := transfersExactly hsize (along_send_common h)
    rw [run_send_common]
    exact hexact
  · obtain ⟨hfollows, halong⟩ := (follows_start hsize).run hsize (along_send_common h)
    rw [run_send_common] at hzero
    rw [run_sent hsize h, (ChunkLoop.known_run halong).moved_all (hfollows.ret_zero.mp hzero)]

/-- Three bytes that come in two chunks, and go in two. -/
theorem service_transfers_exact_three :
    let data : DataBytes := fun i => i.toNat.toUInt8
    let received := Run.run (recvStep 3) (.start 3 data)
      [.wouldBlock, .received [7, 8], .received [9]]
    let sent := Run.run (sendStep 3 data) (.start 3) [.sent 1, .wouldBlock, .sent 2]
    TransfersExactly 3 [.again, .moved 2, .moved 1] received.toTransferCall ∧
      TransfersExactly 3 [.moved 1, .again, .moved 2] sent.toTransferCall ∧
      sent.sent = [0, 1, 2] := by
  intro data received sent
  obtain ⟨hrecv, hsend⟩ := service_transfers_exact 3 (by decide) data
  obtain ⟨hreceived, -⟩ := hrecv [.wouldBlock, .received [7, 8], .received [9]] (by decide)
  obtain ⟨hexact, hsent⟩ := hsend [.sent 1, .wouldBlock, .sent 2] (by decide)
  exact ⟨hreceived, hexact, hsent (by decide)⟩

end bytes

/-! ## The exchanges -/

/-- The loop of the exchanges is the transfer. -/
theorem sendLoop_eq {size : Nat} {s : ChunkLoop.State} (hresult : s.result = none)
    {results : List SendResult}
    (h : Run.Along (ChunkLoop.step size serviceWaitMaxTry) (ChunkLoop.Moves size)
      (ChunkLoop.test size s) (results.map SendResult.outcome)) :
    let ended := Run.run (ChunkLoop.step size serviceWaitMaxTry) (ChunkLoop.test size s)
      (results.map SendResult.outcome)
    sendLoop size s.tries s.moved results = (ended.moved, decide (ended.result = some true)) := by
  induction results generalizing s with
  | nil =>
    simp only [List.map_nil, Run.run_nil, sendLoop, ChunkLoop.test]
    split
    · next hbelow => simp [hresult, Nat.not_le.mpr hbelow]
    · next hend => simp [Nat.not_lt.mp hend]
  | cons r results ih =>
    rw [List.map_cons] at h ⊢
    by_cases hend : size ≤ s.moved
    · unfold sendLoop
      rw [ChunkLoop.test_end hend, ChunkLoop.run_ended rfl, if_pos hend]
      simp
    · have htest := ChunkLoop.test_below (Nat.lt_of_not_le hend)
      obtain ⟨hmoves, hrest⟩ := h
      rw [htest] at hmoves hrest
      unfold sendLoop
      rw [htest, Run.run_cons, if_neg hend]
      cases r with
      | failed =>
        simp only [ChunkLoop.step, hresult, SendResult.outcome]
        rw [ChunkLoop.run_ended rfl]
        simp
      | sent n =>
        obtain ⟨-, hfits⟩ := hmoves hresult n rfl
        have hmin : min n (size - s.moved) = n := by omega
        simp only [ChunkLoop.step, hresult, SendResult.outcome] at hrest ⊢
        rw [hmin]
        exact ih rfl hrest
      | wouldBlock =>
        simp only [ChunkLoop.step, hresult, SendResult.outcome] at hrest ⊢
        split
        · rw [ChunkLoop.run_ended rfl]
          simp
        · next htries =>
          rw [if_neg htries] at hrest
          exact ih rfl hrest

theorem run_recv_ended {size : Nat} {c : RecvCall} {ret : Int} (hret : c.ret = some ret)
    (results : List RecvResult) : Run.run (recvStep size) c results = c :=
  Run.run_fixed (fun r => by simp only [recvStep, hret]) results

/-- The loop of the exchanges returns, and leaves, what the loop with its variables does. -/
theorem recvLoop_eq {size : Nat} (hsize : (size : Int) ≤ intMax) {data : DataBytes}
    {c : RecvCall} {s : ChunkLoop.State} {received : List UInt8} {results : List RecvResult}
    (hresult : s.result = none)
    (hfollows : Follows size c.toTransferCall (ChunkLoop.test size s))
    (hmoved : s.moved = received.length) (hdata : c.data = data.store 0 received)
    (h : Run.Along (recvStep size) (RecvAnswers size) c results) :
    let ended := Run.run (recvStep size) c results
    let left := recvLoop size s.tries received results
    left.ok = decide (ended.ret = some 0) ∧ ended.data = data.store 0 left.bytes := by
  induction results generalizing c s received with
  | nil =>
    simp only [Run.run_nil, recvLoop, hfollows.ret_zero, ChunkLoop.test]
    split
    · next hbelow => simp [hresult, ← hmoved, Nat.not_le.mpr hbelow, hdata]
    · next hend => simp [← hmoved, Nat.not_lt.mp hend, hdata]
  | cons r results ih =>
    unfold recvLoop
    by_cases hend : size ≤ s.moved
    · rw [ChunkLoop.test_end hend] at hfollows
      have hret : c.ret = some 0 := hfollows.ret_zero.mpr rfl
      rw [run_recv_ended hret, if_pos (hmoved ▸ hend)]
      exact ⟨by simp [hret], hdata⟩
    · rw [ChunkLoop.test_below (Nat.lt_of_not_le hend)] at hfollows
      have hret : c.ret = none := hfollows.ret_none.mpr hresult
      obtain ⟨hanswers, hrest⟩ := h
      have hstep : Follows size (recvStep size c r).toTransferCall
          (ChunkLoop.step size serviceWaitMaxTry s r.outcome) :=
        recvStep_common size c r ▸ hfollows.step hsize hanswers.common
      have hstored : (recvStep size c r).data = data.store 0 (received ++ r.bytes) := by
        rw [recvStep_data c r hret, hdata, hfollows.total, hmoved, store_append]
      rw [Run.run_cons, if_neg (hmoved ▸ hend)]
      have hover (hfalse : (ChunkLoop.step size serviceWaitMaxTry s r.outcome).result = some false)
          (hnone : r.bytes = []) :
          let ended := Run.run (recvStep size) (recvStep size c r) results
          false = decide (ended.ret = some 0) ∧ ended.data = data.store 0 received := by
        have hret : (recvStep size c r).ret = some (-1) := by
          rw [hstep.ret, hfalse]
          rfl
        rw [run_recv_ended hret]
        rw [hnone, List.append_nil] at hstored
        exact ⟨by simp [hret], hstored⟩
      simp only [ChunkLoop.step, hresult] at hstep hover
      cases r with
      | failed => exact hover rfl rfl
      | received bytes =>
        cases bytes with
        | nil => exact hover rfl rfl
        | cons byte bytes =>
          have hfits := hanswers hret _ rfl
          rw [hfollows.left hsize, hmoved] at hfits
          simp only [List.take_of_length_le hfits]
          exact ih (s := { s with moved := s.moved + (byte :: bytes).length, result := none }) rfl
            hstep (by rw [List.length_append, hmoved]) hstored hrest
      | wouldBlock =>
        simp only [RecvResult.outcome, RecvResult.common, SendResult.outcome] at hstep hover
        dsimp only
        split
        · next htries => exact hover (by rw [if_pos htries]) rfl
        · next htries =>
          rw [if_neg htries] at hstep
          have hnone : RecvResult.wouldBlock.bytes = [] := rfl
          rw [hnone, List.append_nil] at hstored
          exact ih rfl hstep hmoved hstored hrest

/-- The exchanges send what the loop over the data sends. -/
theorem serviceSendData_eq {size : Nat} (hsize : (size : Int) ≤ intMax) {data : DataBytes}
    {results : List SendResult}
    (h : Run.Along (sendStep size data) (fun c r => SendAnswers size c.toTransferCall r)
      (.start size) results) :
    let ended := Run.run (sendStep size data) (.start size) results
    serviceSendData (data.load 0 size) results = (ended.sent, decide (ended.ret = some 0)) := by
  obtain ⟨hfollows, halong⟩ := (follows_start hsize).run hsize (along_send_common h)
  have hlength : (data.load 0 size).length = size := by
    rw [DataBytes.load, List.length_map, List.length_range]
  have hloop : sendLoop size 0 0 results = _ := sendLoop_eq (s := ⟨0, 0, none⟩) rfl halong
  intro ended
  have hsent : ended.sent = _ := run_sent hsize h
  rw [hsent, ← load_take hfollows.le data, serviceSendData, hlength, hloop]
  refine Prod.ext rfl (decide_eq_decide.mpr ?_)
  have hcommon : (Run.run (sendStep size data) (.start size) results).toTransferCall =
      Run.run (TransferCall.step size) (.start size) results := run_send_common _ results
  rw [hcommon, hfollows.ret_zero]
  rfl

/-- The exchanges receive what the loop over the buffer receives. -/
theorem serviceRecvData_eq {size : Nat} (hsize : (size : Int) ≤ intMax) {data : DataBytes}
    {results : List RecvResult}
    (h : Run.Along (recvStep size) (RecvAnswers size) (.start size data) results) :
    let ended := Run.run (recvStep size) (.start size data) results
    let left := serviceRecvData size results
    left.ok = decide (ended.ret = some 0) ∧ ended.data = data.store 0 left.bytes :=
  recvLoop_eq (s := ⟨0, 0, none⟩) hsize rfl (follows_start hsize) rfl (store_nil data 0).symm h

end NemeaSupervisor
